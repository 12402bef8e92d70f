import TraceExport.Export.Location
import TraceExport.Replay.Plan

/-!
The file of a test. It imports what it needs, declares the variables that its
statements read, and holds one test with the blocks of all steps.
-/

namespace TraceExport.Export

open Script Replay

/-- The title of a test: the name of the specification, with dashes read as
blanks. -/
def testName (specPath : String) : String :=
  let isSlash (c : Char) : Bool := c == '/' || c == '\\'
  let file := (specPath.toList.reverse.takeWhile (!isSlash ·)).reverse
  match withoutMarkdown file with
  | [] => "Exported Test"
  | stem => String.ofList (stem.map fun c => if c == '-' then ' ' else c)

/-- The module that reads the environment, from the root of the project. -/
def helperModule : Path := ⟨"tests/helpers/autoqa-env"⟩

/-- The number of components that two paths have in common at their start. -/
def commonLength : List Component → List Component → Nat
  | a :: as, b :: bs => if a = b then commonLength as bs + 1 else 0
  | _, _ => 0

/-- The components that lead from one place to another: up to the last directory
they share, and down again. -/
def wayTo (start goal : List Component) : List Component :=
  let shared := commonLength start goal
  List.replicate (start.length - shared) .parent ++ goal.drop shared

/-- How the helper module is imported from the export directory. -/
def helperImport (cwd dir : Path) : String :=
  let way := wayTo (Path.resolve cwd dir).components (Path.resolve cwd helperModule).components
  let text := (Path.ofComponents way).slashText
  if Text.startsWith "../".toList text.toList then text else "./" ++ text

def declareEnv (binding key : String) : String :=
  "const " ++ binding ++ " = getEnvVar('" ++ key ++ "')\n"

def envDeclarations (vars : List String) : String :=
  String.join (vars.map fun var => declareEnv (variableName var) (envKey var))

def declarations (needs : Needs) : String :=
  declareEnv "baseUrl" "AUTOQA_BASE_URL" ++
    (if needs.loginBaseUrl then declareEnv "loginBaseUrl" "AUTOQA_LOGIN_BASE_URL" else "") ++
    envDeclarations needs.envVars

def testFile (plan : Plan) (name helper : String) : String :=
  "import \x7b test, expect \x7d from '@playwright/test'\n" ++
    "import \x7b loadEnvFiles, getEnvVar \x7d from " ++ quoted helper ++ "\n\n" ++
    "loadEnvFiles()\n\n" ++
    declarations plan.needs ++ "\n" ++
    "test(" ++ quoted name ++ ", async (\x7b page \x7d) => \x7b\n" ++
    "\n".intercalate (plan.blocks.map Block.code) ++ "\n\x7d)\n"

end TraceExport.Export
