import Phrasing.Binary64.Rounding
import Phrasing.Decimal.Basic

/-!
The double nearest to a decimal number, and doubles read from text.

A power of ten far above or below the doubles is recognised before it is computed, so a short text
never makes a huge number.
-/

namespace Phrasing

namespace Decimal

/-- At least `2 ^ 1024`, whatever the digits are, unless all are zero. -/
def tooLarge (d : Decimal) : Bool := 1024 ≤ 3 * d.exponent

/-- Below half of the smallest positive double. -/
def tooSmall (d : Decimal) : Bool := (d.digits.log2 : Int) + 1076 ≤ 3 * -d.exponent

def toBinary64 (negative : Bool) (d : Decimal) : Binary64 :=
  if d.digits = 0 || d.tooSmall then .finite (.zero negative)
  else if d.tooLarge then .infinity negative
  else .nearest negative d.numerator d.denominator

end Decimal

namespace Binary64

/-- The words for infinity and for what is not a number, in any case. -/
def ofWord? (negative : Bool) (s : List Char) : Option Binary64 :=
  let word := s.map Char.toLower
  if word = ['i', 'n', 'f'] ∨ word = ['i', 'n', 'f', 'i', 'n', 'i', 't', 'y'] then
    some (infinity negative)
  else if word = ['n', 'a', 'n'] then some (nan (.quiet negative))
  else none

/-- A decimal number or one of the words, with at most one sign before it. -/
def read? (s : List Char) : Option Binary64 :=
  let (negative, body) := Numeral.splitSign s
  (ofWord? negative body).orElse fun _ ↦ (Decimal.read? body).map (Decimal.toBinary64 negative)

end Binary64

end Phrasing
