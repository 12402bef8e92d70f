import TraceExport.Files.Basic
import TraceExport.Text.Utf8

/-!
A model of a file system. A disk is a list of nodes, each under the names that
lead to it from the root, and a clock that gives every change its time. The root
itself is always a directory.
-/

namespace TraceExport

inductive Node where
  | directory
  | file (bytes : List UInt8)
deriving DecidableEq, Repr

def Node.kind : Node → FileKind
  | directory => .directory
  | file _ => .file

/-- The names that lead from the root to a place, last one in front. -/
abbrev Place := List String

structure DiskEntry where
  place : Place
  node : Node
  modified : Nat
deriving DecidableEq, Repr

structure Disk where
  nodes : List DiskEntry
  clock : Nat
deriving DecidableEq, Repr

namespace Disk

/-- The longest name that a file may have, in bytes. -/
def nameLimit : Nat := 255

def node? (d : Disk) : Place → Option Node
  | [] => some .directory
  | place => (d.nodes.find? (·.place = place)).map (·.node)

def badName? (name : String) : Option FileError :=
  if name.toList.contains '\x00' then some .nulInName
  else if nameLimit < name.utf8ByteSize then some .nameTooLong
  else none

/-- Goes from a place to the next component of a path. The component before has
to be a directory that exists. -/
def enter (d : Disk) (place : Place) (c : Component) : Except FileError Place :=
  match d.node? place with
  | none => .error .notFound
  | some (.file _) => .error .notDirectory
  | some .directory =>
    match c with
    | .root => .ok []
    | .current => .ok place
    | .parent => .ok (place.drop 1)
    | .normal name =>
      match badName? name with
      | some e => .error e
      | none => .ok (name :: place)

/-- The place that a path leads to; what is there need not exist. -/
def place (d : Disk) (p : Path) : Except FileError Place := p.components.foldlM d.enter []

def find (d : Disk) (p : Path) : Except FileError (Place × Node) := do
  if p.text.toList.contains '\x00' then throw .nulInName
  let place ← d.place p
  match d.node? place with
  | some node => pure (place, node)
  | none => throw .notFound

def touch (d : Disk) (place : Place) (time : Nat) : Disk :=
  { d with nodes := d.nodes.map fun e => if e.place = place then { e with modified := time } else e }

/-- Puts a node in a place. A new entry changes the directory that it is in. -/
def put (d : Disk) (place : Place) (node : Node) : Disk :=
  let entry : DiskEntry := ⟨place, node, d.clock⟩
  let d := { d with clock := d.clock + 1 }
  if d.nodes.any (·.place = place) then
    { d with nodes := d.nodes.map fun e => if e.place = place then entry else e }
  else { d.touch (place.drop 1) entry.modified with
    nodes := (d.touch (place.drop 1) entry.modified).nodes ++ [entry] }

def remove (d : Disk) (place : Place) : Disk :=
  let gone := { d with nodes := d.nodes.filter fun e => !place.isSuffixOf e.place }
  { gone.touch (place.drop 1) d.clock with clock := d.clock + 1 }

/-- Makes one directory of a path; `last` tells whether it is the last one. -/
def makeOne (d : Disk) (place : Place) (last : Bool) : Except FileError Disk :=
  match d.node? place with
  | some .directory => .ok d
  | some (.file _) => .error (if last then .alreadyExists else .notDirectory)
  | none => .ok (d.put place .directory)

/-- Makes the directories of a path one after the other. What was made stays
when a later one fails. -/
def makeFrom (d : Disk) (place : Place) : List Component → Except FileError Unit × Disk
  | [] => (.ok (), d)
  | c :: rest =>
    match d.enter place c with
    | .error e => (.error e, d)
    | .ok next =>
      match d.makeOne next rest.isEmpty with
      | .error e => (.error e, d)
      | .ok d => makeFrom d next rest

def pathOf (place : Place) : Path :=
  Path.ofComponents (.root :: place.reverse.map .normal)

def readText (d : Disk) (p : Path) : Except FileError String := do
  match (← d.find p).2 with
  | .directory => throw .isDirectory
  | .file bytes =>
    match Text.Utf8.decode? bytes with
    | some s => pure (String.ofList s)
    | none => throw .notText

def entries (d : Disk) (p : Path) : Except FileError (List DirEntry) := do
  let (place, node) ← d.find p
  match node with
  | .file _ => throw .notDirectory
  | .directory =>
    pure (d.nodes.filterMap fun e =>
      match e.place with
      | name :: parent => if parent = place then some ⟨name, e.node.kind, e.modified⟩ else none
      | [] => none)

def filesBelow (d : Disk) (p : Path) : Except FileError (List Path) := do
  let (place, _) ← d.find p
  pure (d.nodes.filterMap fun e =>
    if place.isSuffixOf e.place && e.node.kind == .file then
      some (Path.join p (Path.ofComponents
        ((e.place.take (e.place.length - place.length)).reverse.map .normal)))
    else none)

def writeText (d : Disk) (p : Path) (text : String) : Except FileError Unit × Disk :=
  match d.place p with
  | .error e => (.error e, d)
  | .ok place =>
    match d.node? place with
    | some .directory => (.error .isDirectory, d)
    | _ =>
      match d.node? (place.drop 1) with
      | some .directory => (.ok (), d.put place (.file (Text.Utf8.encode text.toList)))
      | some (.file _) => (.error .notDirectory, d)
      | none => (.error .notFound, d)

def makeDirectory (d : Disk) (p : Path) : Except FileError Unit × Disk :=
  if p.text.toList.contains '\x00' then (.error .nulInName, d) else d.makeFrom [] p.components

/-- What is at a path. A file system tells no more about a path that cannot be
followed. -/
def kind? (d : Disk) (p : Path) : Option FileKind :=
  match d.find p with
  | .ok (_, node) => some node.kind
  | .error _ => none

instance : FileSystem (StateM Disk) where
  kind? p := do return (← get).kind? p
  readText p := do return (← get).readText p
  entries p := do return (← get).entries p
  filesBelow p := do return (← get).filesBelow p
  makeDirectory p := modifyGet fun d => d.makeDirectory p
  writeText p text := modifyGet fun d => d.writeText p text

end Disk

end TraceExport
