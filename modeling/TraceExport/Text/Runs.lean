/-!
Sets of code points, written as runs: pairs of a first and a last member.
-/

namespace TraceExport.Text

def inRuns (runs : List (Nat × Nat)) (n : Nat) : Bool :=
  runs.any fun r => r.1 ≤ n && n ≤ r.2

end TraceExport.Text
