import Phrasing.Condition.Basic

/-!
Fingerprints: numbers that stand for the content of a condition.

The content is spelled as a sequence of typed words, and any function may digest it; zero is kept
for what is incomplete. Nothing below depends on which function it is.
-/

namespace Phrasing

inductive Word where
  | count (n : Nat)
  | digest (n : Nat)
  | operator (o : Operator)
  | flag (b : Bool)
  | tag (n : Nat)
  | integer (n : Int)
  | float (x : Binary64)
  | text (s : String)
deriving DecidableEq

/-- A digest of sequences of words. -/
class Hasher where
  digest : List Word → Nat

namespace Operand

/-- An operand, spelled after the tag of its form. -/
def words : Operand → List Word
  | pointer index => [.tag 0, .count index]
  | integer n => [.tag 1, .integer n]
  | float x => [.tag 2, .float x]
  | text s => [.tag 3, .text s]
  | range low high => [.tag 4, .float low, .float high]

end Operand

variable [Hasher]

namespace Branch

def words (b : Branch) : List Word :=
  [.count b.target, .operator b.operator, .flag b.negate] ++ b.operand.words ++ [.text b.result]

/-- The fingerprint of a branch: zero just when its result is blank. -/
def fingerprint (b : Branch) : Nat :=
  if Text.isBlankText b.result then 0 else max 1 (Hasher.digest b.words)

end Branch

namespace Condition

/-- The content of a condition, each branch by its fingerprint. -/
def words (c : Condition) (fallback : String) : List Word :=
  .count c.branches.length :: c.branches.map (fun branch ↦ .digest branch.fingerprint) ++
    [.text fallback, .text c.lead]

/-- The fingerprint of a condition: zero just when it is incomplete. -/
def fingerprint (c : Condition) : Nat :=
  match c.fallback with
  | none => 0
  | some fallback =>
    if Text.isBlankText fallback || c.branches.any (fun branch ↦ branch.fingerprint == 0) then 0
    else max 1 (Hasher.digest (c.words fallback))

end Condition

theorem Branch.fingerprint_eq_zero_iff {b : Branch} :
    b.fingerprint = 0 ↔ Text.isBlankText b.result = true := by
  unfold fingerprint
  split
  · next h => exact ⟨fun _ ↦ h, fun _ ↦ rfl⟩
  · next h => exact ⟨fun h' ↦ by omega, fun h' ↦ absurd h' h⟩

end Phrasing
