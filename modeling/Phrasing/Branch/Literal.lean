import Phrasing.Decimal.Rounding
import Phrasing.Failure

/-!
Operands read from their text: a pointer, else a whole number, else a float, else the text itself.
-/

namespace Phrasing

namespace Numeral

def braced? : List Char → Option Nat
  | '{' :: s => if s.getLast? = some '}' then index? s.dropLast else none
  | _ => none

/-- Whether only the characters of decimal numbers occur, with at least one digit. -/
def looksNumeric (s : List Char) : Bool :=
  s.any Char.isDigit && s.all fun c ↦ c.isDigit || ['+', '-', '.', 'e', 'E'].contains c

end Numeral

namespace Decimal

def ofDigits (s : List Char) : Decimal := ⟨Nat.ofDigitChars 10 s 0, 0⟩

end Decimal

namespace Operand

/-- A whole number within the limits, else a float, else the text; words are never floats. -/
def ofLiteral (s : List Char) : Operand :=
  match Numeral.literal? s with
  | some n => integer n
  | none =>
    match if Numeral.looksNumeric s then Binary64.read? s else none with
    | some x => float x
    | none => text (String.ofList s)

/-- Reads an operand that starts at `offset`; what starts with a brace has to be a pointer. -/
def read (offset : Nat) (s : List Char) : Except Failure Operand :=
  if s.head? = some '{' then
    match Numeral.braced? s with
    | some index => .ok (pointer index)
    | none => .error (.malformed offset (.badPointer (String.ofList s)))
  else .ok (ofLiteral s)

end Operand

end Phrasing
