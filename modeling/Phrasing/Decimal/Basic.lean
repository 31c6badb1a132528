import Phrasing.Numeral
import Phrasing.Power

/-!
Decimal numbers, `digits * 10 ^ exponent`, and how they are read from text.
-/

namespace Phrasing

/-- The number `digits * 10 ^ exponent`. -/
structure Decimal where
  digits : Nat
  exponent : Int
deriving DecidableEq, Inhabited

namespace Decimal

/-- The value is `numerator / denominator`. -/
def numerator (d : Decimal) : Nat := d.digits * tenPow d.exponent.toNat

def denominator (d : Decimal) : Nat := tenPow (-d.exponent).toNat

def splitDigits (s : List Char) : List Char × List Char :=
  (s.takeWhile Char.isDigit, s.dropWhile Char.isDigit)

/-- The digits after a point, if one stands first, and what follows them. -/
def splitFraction : List Char → List Char × List Char
  | '.' :: s => splitDigits s
  | s => ([], s)

/-- The power of ten that ends a number; nothing at all is the power zero. -/
def power? : List Char → Option Int
  | [] => some 0
  | c :: s => if c = 'e' ∨ c = 'E' then Numeral.integer? s else none

/-- Digits with an optional point before, among or after them, and an optional power of ten. -/
def read? (s : List Char) : Option Decimal :=
  let (whole, rest) := splitDigits s
  let (fraction, ending) := splitFraction rest
  if whole.isEmpty && fraction.isEmpty then none
  else (power? ending).map fun e ↦ ⟨Nat.ofDigitChars 10 (whole ++ fraction) 0, e - fraction.length⟩

theorem splitDigits_append (s : List Char) : (splitDigits s).1 ++ (splitDigits s).2 = s :=
  List.takeWhile_append_dropWhile

end Decimal

end Phrasing
