import TraceExport.Spec.Placeholder

/-!
What a script has to declare before its test: the variables that it reads from
the environment, sorted and each once, and whether it needs the address of the
login pages. The address of the application is always declared.
-/

namespace TraceExport.Script

structure Needs where
  envVars : List String
  loginBaseUrl : Bool
deriving DecidableEq, Repr

def insertSorted (name : String) : List String → List String
  | [] => [name]
  | n :: rest =>
    if name < n then name :: n :: rest
    else if name = n then n :: rest
    else n :: insertSorted name rest

def sortedNames (names : List String) : List String :=
  names.foldl (fun sorted name => insertSorted name sorted) []

namespace Needs

def none : Needs := ⟨[], false⟩

def ofVar (var : String) : Needs :=
  if var = Spec.Placeholder.baseUrl then none
  else if var = Spec.Placeholder.loginBaseUrl then ⟨[], true⟩
  else ⟨[var], false⟩

def merge (a b : Needs) : Needs :=
  ⟨b.envVars.foldl (fun sorted name => insertSorted name sorted) a.envVars,
    a.loginBaseUrl || b.loginBaseUrl⟩

def ofVars (vars : List String) : Needs := (vars.map ofVar).foldl merge none

end Needs

end TraceExport.Script
