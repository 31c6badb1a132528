import Phrasing.Decimal.Shortest

/-!
Doubles as text: the shortest digits, written plainly or with a power of ten.
-/

namespace Phrasing

structure Layout where
  /-- Whether a number whose first digit counts `10 ^ e` is written without a power of ten. -/
  isPlain : Int → Bool
  /-- A whole number written plainly ends in `.0`. -/
  keepsPoint : Bool
  /-- A power of ten that is not negative has a plus sign. -/
  hasPlus : Bool
  tie : Tie

namespace Layout

def plain (layout : Layout) (digits : List Char) (exponent : Int) : List Char :=
  if 0 ≤ exponent then
    digits ++ List.replicate exponent.toNat '0' ++ (if layout.keepsPoint then ['.', '0'] else [])
  else
    let places := (-exponent).toNat
    if places < digits.length then
      digits.take (digits.length - places) ++ '.' :: digits.drop (digits.length - places)
    else
      '0' :: '.' :: List.replicate (places - digits.length) '0' ++ digits

def powerText (layout : Layout) (e : Int) : List Char :=
  (if e < 0 then ['-'] else if layout.hasPlus then ['+'] else []) ++ Nat.toDigits 10 e.natAbs

/-- The digits of a decimal with one digit before the point and a power of ten. -/
def scientific (layout : Layout) (digits : List Char) (e : Int) : List Char :=
  digits.take 1 ++ (if digits.length ≤ 1 then [] else '.' :: digits.drop 1) ++
    'e' :: layout.powerText e

/-- Writes a decimal, plainly where the layout says so. -/
def decimal (layout : Layout) (d : Decimal) : List Char :=
  let digits := Nat.toDigits 10 d.digits
  let e := d.exponent + digits.length - 1
  if layout.isPlain e then layout.plain digits d.exponent else layout.scientific digits e

def sign (negative : Bool) : List Char := if negative then ['-'] else []

def finite (layout : Layout) (x : Binary64.Finite) : List Char :=
  sign x.negative ++ layout.decimal (Decimal.shortest layout.tie x.units)

def write (layout : Layout) : Binary64 → List Char
  | .finite x => layout.finite x
  | .infinity negative => sign negative ++ ['i', 'n', 'f']
  | .nan _ => ['N', 'a', 'N']

/-- Never a power of ten, and no point after a whole number. -/
def positional : Layout := ⟨fun _ ↦ true, false, false, .up⟩

end Layout

end Phrasing
