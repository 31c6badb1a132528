import Phrasing.Value.Basic
import Phrasing.Decimal.Layout

/-!
Values as text: compact JSON, except that a text on its own is written as it is.
-/

namespace Phrasing.Value

/-- Floats are plain from `0.00001` to below `10 ^ 16`, with a point always. -/
def floatLayout : Layout := ⟨fun e ↦ -5 ≤ e && e < 16, true, true, .even⟩

def hexDigits (n : Nat) : List Char :=
  let digits := Nat.toDigits 16 n
  List.replicate (4 - digits.length) '0' ++ digits

def escape (c : Char) : List Char :=
  if c = '"' then ['\\', '"']
  else if c = '\\' then ['\\', '\\']
  else if c = '\n' then ['\\', 'n']
  else if c = '\r' then ['\\', 'r']
  else if c = '\t' then ['\\', 't']
  else if c = '\x08' then ['\\', 'b']
  else if c = '\x0c' then ['\\', 'f']
  else if c.toNat < 0x20 then '\\' :: 'u' :: hexDigits c.toNat
  else [c]

def quoted (s : String) : List Char := '"' :: s.toList.flatMap escape ++ ['"']

def wholeText (n : Int) : List Char := Layout.sign (n < 0) ++ Nat.toDigits 10 n.natAbs

mutual

def json : Value → List Char
  | null => ['n', 'u', 'l', 'l']
  | bool b => if b then ['t', 'r', 'u', 'e'] else ['f', 'a', 'l', 's', 'e']
  | integer n => wholeText n
  | float x => floatLayout.finite x
  | text s => quoted s
  | array items => '[' :: jsonItems items ++ [']']
  | object fields => '{' :: jsonFields fields ++ ['}']

def jsonItems : List Value → List Char
  | [] => []
  | [item] => json item
  | item :: items => json item ++ ',' :: jsonItems items

def jsonFields : List (String × Value) → List Char
  | [] => []
  | [(name, value)] => quoted name ++ ':' :: json value
  | (name, value) :: fields => quoted name ++ ':' :: json value ++ ',' :: jsonFields fields

end

/-- What takes the place of a placeholder: a text as it is, other values as JSON. -/
def display : Value → String
  | text s => s
  | v => String.ofList (json v)

end Phrasing.Value
