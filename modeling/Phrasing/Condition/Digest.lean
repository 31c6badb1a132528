import Phrasing.Condition.Fingerprint

/-!
A digest of 64 bits: the words are written as characters, and these are folded into one number by
exclusive or and multiplication.
-/

namespace Phrasing

namespace Word

def form : Word → Nat
  | count _ => 0
  | digest _ => 1
  | operator _ => 2
  | flag _ => 3
  | tag _ => 4
  | integer _ => 5
  | float _ => 6
  | text _ => 7

/-- The characters of a double: its sign and its units, or what else there is after the sign. -/
def floatChars : Binary64 → List Char
  | .finite x => Layout.sign x.negative ++ Nat.toDigits 10 x.units
  | .infinity negative => Layout.sign negative ++ ['i']
  | .nan x => Layout.sign x.negative ++ 'n' :: Nat.toDigits 10 x.fraction

def chars : Word → List Char
  | count n | digest n | tag n => Nat.toDigits 10 n
  | operator o => o.token.toList
  | flag b => if b then ['1'] else ['0']
  | integer n => Layout.sign (n < 0) ++ Nat.toDigits 10 n.natAbs
  | float x => floatChars x
  | text s => s.toList

/-- A word as numbers: its form, its characters, and a number that is no character. -/
def items (w : Word) : List Nat := w.form :: w.chars.map Char.toNat ++ [0x110000]

end Word

namespace Digest

def start : UInt64 := 0xcbf29ce484222325

def factor : UInt64 := 0x100000001b3

def step (h : UInt64) (item : Nat) : UInt64 := (h ^^^ item.toUInt64) * factor

@[reducible] def hasher : Hasher where
  digest words := ((words.flatMap Word.items).foldl step start).toNat

end Digest

end Phrasing
