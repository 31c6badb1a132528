import Phrasing.Condition.Fingerprint

/-!
Conditions that remember their last successful check.

The stamp is the fingerprint of the condition at that time. A condition whose fingerprint still
is its stamp is not checked again, and any change removes the stamp.
-/

namespace Phrasing

/-- A condition with the stamp of its last successful check, zero if it was changed since. -/
structure Stamped where
  condition : Condition
  stamp : Nat
deriving DecidableEq, Inhabited

namespace Stamped

def new (condition : Condition) : Stamped := ⟨condition, 0⟩

def push (s : Stamped) (branch : Branch) : Stamped := new (s.condition.push branch)

def setFallback (s : Stamped) (result : String) : Stamped := new (s.condition.setFallback result)

variable [Hasher]

/-- The check succeeded and nothing was changed since. -/
def isValidated (s : Stamped) : Bool :=
  s.stamp != 0 && s.stamp == s.condition.fingerprint

/-- Checks the condition unless its stamp is still good, and stamps it. -/
def validate (s : Stamped) : Except Failure Stamped :=
  let fingerprint := s.condition.fingerprint
  if fingerprint != 0 && s.stamp == fingerprint then .ok s
  else match s.condition.check with
    | .ok () => .ok ⟨s.condition, fingerprint⟩
    | .error flaw => .error (.unsound flaw)

/-- The condition after a check: stamped if it is sound, else as it was. -/
def checked (s : Stamped) : Stamped :=
  match s.validate with
  | .ok t => t
  | .error _ => s

theorem validate_condition {s t : Stamped} (h : s.validate = .ok t) :
    t.condition = s.condition := by
  unfold validate at h
  dsimp only at h
  split at h
  · cases h
    rfl
  · split at h <;> cases h
    rfl

end Stamped

end Phrasing
