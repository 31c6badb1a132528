import Mathlib.Logic.Function.Basic
import Phrasing.Condition.Workbench

/-!
Conditions by name: they are made, changed, used, copied and exchanged, in any order.

A use checks the condition first, and leaves it stamped if it is sound, whatever comes of the use.
-/

namespace Phrasing

/-- What is done with a condition, once it is checked. -/
inductive Use where
  | validate
  | select (args : List Value) (options : Options)
  | apply (args : List Value) (options : Options)

namespace Stamped

variable [Hasher]

def answer (s : Stamped) : Use → Except Failure Workbench.Answer
  | .validate => s.validate.map fun _ ↦ .sound
  | .select args options => (s.select options args).map .selection
  | .apply args options => (s.apply options args).map .output

end Stamped

/-- Conditions by name. -/
abbrev Shelf (ι : Type) := ι → Stamped

namespace Shelf

variable {ι : Type}

/-- A shelf where nothing was done yet. -/
def new : Shelf ι := fun _ ↦ .new (.ofLead "")

inductive Step (ι : Type) where
  /-- Puts a new condition in place of the one with that name. -/
  | new (i : ι) (lead : String)
  | push (i : ι) (branch : Branch)
  | setFallback (i : ι) (result : String)
  | use (i : ι) (use : Use)
  /-- Puts a copy of the first condition in place of the second. -/
  | clone (i j : ι)
  | swap (i j : ι)

variable [Hasher] [DecidableEq ι]

/-- Stores a condition and tells whether it is validated. -/
def put (s : Shelf ι) (i : ι) (condition : Stamped) : Except Failure Workbench.Answer × Shelf ι :=
  (.ok (.validated condition.isValidated), Function.update s i condition)

def run (s : Shelf ι) : Step ι → Except Failure Workbench.Answer × Shelf ι
  | .new i lead => s.put i (.new (.ofLead lead))
  | .push i branch => s.put i ((s i).push branch)
  | .setFallback i result => s.put i ((s i).setFallback result)
  | .use i use => ((s i).answer use, Function.update s i (s i).checked)
  | .clone i j => s.put j (s i)
  | .swap i j => put (Function.update s j (s i)) i (s j)

def runAll (s : Shelf ι) : List (Step ι) → List (Except Failure Workbench.Answer) × Shelf ι
  | [] => ([], s)
  | step :: steps =>
    let (answer, s') := s.run step
    let (answers, final) := s'.runAll steps
    (answer :: answers, final)

end Shelf

end Phrasing
