/-!
Whole numbers written in ASCII digits, with an optional sign, and their limits.
-/

namespace Phrasing.Numeral

def isDigits (s : List Char) : Bool := !s.isEmpty && s.all Char.isDigit

/-- A number without a sign; leading zeros are allowed. -/
def natural? (s : List Char) : Option Nat :=
  if isDigits s then some (Nat.ofDigitChars 10 s 0) else none

/-- Whether a minus sign stands first, and what follows the sign. -/
def splitSign : List Char → Bool × List Char
  | '-' :: s => (true, s)
  | '+' :: s => (false, s)
  | s => (false, s)

/-- A number with at most one sign before it. -/
def integer? (s : List Char) : Option Int :=
  let (negative, digits) := splitSign s
  (natural? digits).map fun n ↦ if negative then -(n : Int) else n

/-- One more than the greatest index, `2 ^ 64`. -/
def indexLimit : Nat := 0x10000000000000000

/-- The index that no argument list can hold. -/
def lastIndex : Nat := indexLimit - 1

def index? (s : List Char) : Option Nat := (natural? s).filter (· < indexLimit)

/-- The whole numbers that a literal can hold, `-2 ^ 63` to `2 ^ 63 - 1`. -/
def isLiteral (n : Int) : Bool := -0x8000000000000000 ≤ n && n < 0x8000000000000000

def literal? (s : List Char) : Option Int := (integer? s).filter isLiteral

theorem isDigits_iff {s : List Char} : isDigits s = true ↔ s ≠ [] ∧ ∀ c ∈ s, c.isDigit := by
  cases s <;> simp [isDigits]

theorem natural?_eq_some_iff {s : List Char} {n : Nat} :
    natural? s = some n ↔ (s ≠ [] ∧ ∀ c ∈ s, c.isDigit) ∧ Nat.ofDigitChars 10 s 0 = n := by
  rw [← isDigits_iff]
  simp [natural?]

theorem natural?_toDigits (n : Nat) : natural? (Nat.toDigits 10 n) = some n :=
  natural?_eq_some_iff.2 ⟨⟨Nat.toDigits_ne_nil, fun _ h ↦ Nat.isDigit_of_mem_toDigits (by omega) (by omega) h⟩,
    Nat.ofDigitChars_ten_toDigits⟩

theorem index?_eq_some_iff {s : List Char} {n : Nat} :
    index? s = some n ↔ natural? s = some n ∧ n < indexLimit := by
  simp [index?, Option.filter_eq_some_iff]

end Phrasing.Numeral
