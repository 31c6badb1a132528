import Phrasing.Power

/-!
Doubles as exact numbers.

A finite double is a sign and a whole number of units, a unit being the smallest positive double,
`2 ^ -1074`. The order of doubles is the order of the integers they count.
-/

namespace Phrasing

namespace Binary64

/-- A unit is `2 ^ -scale`. -/
@[irreducible] def scale : Nat := 1074

/-- The number of units in `2 ^ 1024`, where the finite doubles end. -/
def limit : Nat := twoPow (1024 + scale)

theorem limit_pos : 0 < limit := twoPow_pos _

/-- The units have at most 53 significant bits. -/
def Exact (units : Nat) : Prop := twoPow (units.log2 - 52) ∣ units

instance (units : Nat) : Decidable (Exact units) := inferInstanceAs (Decidable (_ ∣ _))

/-- A finite double, with a sign of its own for zero. -/
structure Finite where
  negative : Bool
  units : Nat
  units_lt : units < limit
  exact : Exact units
deriving DecidableEq

/-- What is not a number: a sign, and the 52 bits of a fraction, which are not all zero. -/
structure Nan where
  negative : Bool
  fraction : Nat
  fraction_pos : 0 < fraction
  fraction_lt : fraction < twoPow 52
deriving DecidableEq

/-- The one that is meant where no other is named: the highest bit of its fraction alone is set. -/
def Nan.quiet (negative : Bool) : Nan := ⟨negative, twoPow 51, twoPow_pos 51, by decide⟩

end Binary64

/-- A double; what is not a number has a sign and a fraction too, though no comparison tells them. -/
inductive Binary64 where
  | finite (x : Binary64.Finite)
  | infinity (negative : Bool)
  | nan (x : Binary64.Nan)
deriving DecidableEq

namespace Binary64

namespace Finite

/-- The whole number of units, with its sign. -/
def toInt (x : Finite) : Int := if x.negative then -x.units else x.units

def zero (negative : Bool) : Finite := ⟨negative, 0, limit_pos, Nat.dvd_zero _⟩

instance : Inhabited Finite := ⟨zero false⟩

/-- Equality of numbers: the two zeros are equal. -/
def same (x y : Finite) : Bool := x.toInt == y.toInt

theorem toInt_zero (negative : Bool) : (zero negative).toInt = 0 := by
  cases negative <;> rfl

end Finite

instance : Inhabited Binary64 := ⟨finite default⟩

/-- The place of a double in the order of numbers; infinity stands at the limit. -/
def key : Binary64 → Option Int
  | finite x => some x.toInt
  | infinity negative => some (if negative then -(limit : Int) else limit)
  | nan _ => none

/-- Compares the places of two doubles; nothing holds of what is not a number. -/
def holds (test : Int → Int → Bool) (x y : Binary64) : Bool :=
  match x.key, y.key with
  | some a, some b => test a b
  | _, _ => false

def eq (x y : Binary64) : Bool := holds (fun a b ↦ decide (a = b)) x y

def lt (x y : Binary64) : Bool := holds (fun a b ↦ decide (a < b)) x y

def le (x y : Binary64) : Bool := holds (fun a b ↦ decide (a ≤ b)) x y

def isFinite : Binary64 → Bool
  | finite _ => true
  | _ => false

def isNan : Binary64 → Bool
  | nan _ => true
  | _ => false

end Binary64

end Phrasing
