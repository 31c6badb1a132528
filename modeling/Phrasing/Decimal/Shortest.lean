import Phrasing.Decimal.Rounding

/-!
The shortest decimal that reads back as a given double.

The multiples of `10 ^ e` are searched from a power above the double downwards. On each grid only
the two neighbours of the double can be nearest to it; the first grid with a neighbour that reads
back has the fewest digits.
-/

namespace Phrasing

/-- Which of two equally near decimals is written. -/
inductive Tie where
  | even
  | up
deriving DecidableEq, Inhabited

/-- Whether a tie between `n` and `n + 1` goes to `n + 1`. -/
def Tie.goesUp : Tie → Nat → Bool
  | even, n => n % 2 == 1
  | up, _ => true

namespace Decimal

/-- The decimal reads as the double of that many units. -/
def readsAs (units : Nat) (d : Decimal) : Bool :=
  match d.toBinary64 false with
  | .finite x => x.units == units
  | _ => false

/-- All digits of a double, written out. -/
def exactly (units : Nat) : Decimal := ⟨units * Nat.pow 5 Binary64.scale, -(Binary64.scale : Int)⟩

/-- The neighbour on the grid of multiples of `10 ^ e` that reads back, the nearer of two. -/
def onGrid? (tie : Tie) (units : Nat) (e : Int) : Option Decimal :=
  let num := units * tenPow (-e).toNat
  let den := twoPow Binary64.scale * tenPow e.toNat
  let below : Decimal := ⟨num / den, e⟩
  let above : Decimal := ⟨num / den + 1, e⟩
  match readsAs units below, readsAs units above with
  | false, false => none
  | true, false => some below
  | false, true => some above
  | true, true =>
    let twice := 2 * (num % den)
    if twice < den || (twice == den && !tie.goesUp (num / den)) then some below else some above

/-- Searches that many grids from `10 ^ e` downwards. -/
def search (tie : Tie) (units : Nat) : Nat → Int → Decimal
  | 0, _ => exactly units
  | n + 1, e => (onGrid? tie units e).getD (search tie units n (e - 1))

/-- A power of ten above that many units, by a rational bound on the logarithm of two. -/
def powerAbove (units : Nat) : Int :=
  ((units.log2 : Int) + 1 - Binary64.scale) * 30103 / 100000 + 1

/-- The decimal with the fewest digits that reads as the double, and the nearest of those. -/
def shortest (tie : Tie) (units : Nat) : Decimal :=
  if units = 0 then ⟨0, 0⟩ else search tie units 20 (powerAbove units)

theorem onGrid?_readsAs {tie : Tie} {units : Nat} {e : Int} {d : Decimal}
    (h : onGrid? tie units e = some d) : readsAs units d = true := by
  unfold onGrid? at h
  dsimp only at h
  split at h
  · cases h
  · next hbelow _ =>
    cases h
    exact hbelow
  · next _ habove =>
    cases h
    exact habove
  · next hbelow habove =>
    split at h <;> cases h
    · exact hbelow
    · exact habove

end Decimal

end Phrasing
