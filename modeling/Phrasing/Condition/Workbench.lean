import Phrasing.Selection

/-!
A workbench holds two conditions: one that is being built and used, and one that was put aside.
-/

namespace Phrasing

/-- The condition at work and the one put aside. -/
structure Workbench where
  current : Stamped
  saved : Stamped
deriving DecidableEq

namespace Workbench

def new (lead : String) : Workbench := ⟨.new (.ofLead lead), .new (.ofLead "")⟩

/-- What can be done with the condition at work. -/
inductive Step where
  | push (branch : Branch)
  | setFallback (result : String)
  | validate
  | look
  | save
  | swap
  | compare
  | select (args : List Value) (options : Options)
  | apply (args : List Value) (options : Options)

inductive Answer where
  | validated (answer : Bool)
  | sound
  | condition (content : Stamped)
  | comparison (equal sameFingerprint : Bool)
  | selection (selection : Selection)
  | output (text : String)
deriving DecidableEq

variable [Hasher]

/-- Checks the condition at work, and goes on with it stamped if it is sound. -/
def checked (w : Workbench) (answer : Stamped → Except Failure Answer) :
    Except Failure Answer × Workbench :=
  match w.current.validate with
  | .ok s => (answer s, { w with current := s })
  | .error failure => (.error failure, w)

def run (w : Workbench) : Step → Except Failure Answer × Workbench
  | .push branch =>
    let s := w.current.push branch
    (.ok (.validated s.isValidated), { w with current := s })
  | .setFallback result =>
    let s := w.current.setFallback result
    (.ok (.validated s.isValidated), { w with current := s })
  | .validate => w.checked fun _ ↦ .ok .sound
  | .look => (.ok (.condition w.current), w)
  | .save => (.ok (.validated w.current.isValidated), { w with saved := w.current })
  | .swap => (.ok (.validated w.saved.isValidated), ⟨w.saved, w.current⟩)
  | .compare =>
    (.ok (.comparison (w.current.condition.same w.saved.condition)
      (w.current.condition.fingerprint == w.saved.condition.fingerprint)), w)
  | .select args options => w.checked fun s ↦ (s.select options args).map .selection
  | .apply args options => w.checked fun s ↦ (s.apply options args).map .output

def runAll (w : Workbench) : List Step → List (Except Failure Answer) × Workbench
  | [] => ([], w)
  | step :: steps =>
    let (answer, w') := w.run step
    let (answers, final) := w'.runAll steps
    (answer :: answers, final)

end Workbench

end Phrasing
