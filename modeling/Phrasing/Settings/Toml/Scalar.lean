import Phrasing.Settings.Toml.Quoted
import Phrasing.Settings.Tree

/-!
Single values of a TOML text: strings, booleans, whole numbers and floats.
-/

namespace Phrasing.Settings.Toml

/-- Digits of a base, with single underscores between them left out. -/
def digits? (isDigit : Char → Bool) (s : List Char) : Option (List Char) :=
  let groups := s.splitOn '_'
  if groups.all fun group ↦ !group.isEmpty && group.all isDigit then some groups.flatten else none

/-- Decimal digits without a leading zero. -/
def whole? (s : List Char) : Option (List Char) :=
  (digits? Char.isDigit s).filter fun digits ↦ digits.head? != some '0' || digits.length == 1

def ofBase (base : Nat) (digits : List Char) : Nat :=
  digits.foldl (fun n c ↦ base * n +
    if c.isDigit then c.toNat - '0'.toNat else c.toLower.toNat - 'a'.toNat + 10) 0

def isHexDigit (c : Char) : Bool := c.isDigit || ('a' ≤ c.toLower && c.toLower ≤ 'f')

/-- A whole number: decimal with an optional sign, or after the mark of another base. -/
def integer? (s : List Char) : Option Int :=
  let n? : Option Int := match s with
    | '0' :: 'x' :: s => (digits? isHexDigit s).map fun digits ↦ ofBase 16 digits
    | '0' :: 'o' :: s => (digits? (fun c ↦ '0' ≤ c && c ≤ '7') s).map fun digits ↦ ofBase 8 digits
    | '0' :: 'b' :: s => (digits? (fun c ↦ c == '0' || c == '1') s).map fun digits ↦ ofBase 2 digits
    | s =>
      let (negative, digits) := Numeral.splitSign s
      (whole? digits).map fun digits ↦
        if negative then -(ofBase 10 digits : Int) else ofBase 10 digits
  n?.filter Numeral.isLiteral

/-- Cuts a text before the first character of a kind. -/
def cut (isMark : Char → Bool) (s : List Char) : List Char × List Char :=
  (s.takeWhile fun c ↦ !isMark c, s.dropWhile fun c ↦ !isMark c)

/-- The digits after a point; nothing at all has no digits. -/
def fraction? : List Char → Option (List Char)
  | [] => some []
  | _ :: s => digits? Char.isDigit s

/-- The power after its letter; nothing at all is the power zero. -/
def power? : List Char → Option Int
  | [] => some 0
  | _ :: s =>
    let (negative, body) := Numeral.splitSign s
    (digits? Char.isDigit body).map fun digits ↦
      if negative then -(ofBase 10 digits : Int) else ofBase 10 digits

def decimal? (s : List Char) : Option Decimal := do
  let (front, ending) := cut (fun c ↦ c == 'e' || c == 'E') s
  let (start, middle) := cut (· == '.') front
  guard !(middle.isEmpty && ending.isEmpty)
  let whole ← whole? start
  let fraction ← fraction? middle
  let power ← power? ending
  return ⟨ofBase 10 (whole ++ fraction), power - fraction.length⟩

/-- A float: a sign, and a word or a decimal, which is refused if it is too great. -/
def float? (s : List Char) : Option Binary64 :=
  let (negative, body) := Numeral.splitSign s
  if body = ['i', 'n', 'f'] then some (.infinity negative)
  else if body = ['n', 'a', 'n'] then some (.nan (.quiet negative))
  else ((decimal? body).map (Decimal.toBinary64 negative)).filter Binary64.isFinite

def word? (s : List Char) : Option Tree :=
  if s = ['t', 'r', 'u', 'e'] then some (.bool true)
  else if s = ['f', 'a', 'l', 's', 'e'] then some (.bool false)
  else ((integer? s).map Tree.integer).orElse fun _ ↦ (float? s).map Tree.float

def isWordChar (c : Char) : Bool := isNameChar c || c == '+' || c == '.'

def scalar? (s : List Char) : Option (Tree × List Char) :=
  match text? s with
  | some (text, rest) => some (.text text, rest)
  | none => (word? (s.takeWhile isWordChar)).map fun value ↦ (value, s.dropWhile isWordChar)

end Phrasing.Settings.Toml
