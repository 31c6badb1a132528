import Phrasing.Operator
import Phrasing.Decimal.Layout

/-!
Branches: a comparison of arguments and the text chosen when it holds.
-/

namespace Phrasing

/-- What the target of a comparison is compared with. -/
inductive Operand where
  | pointer (index : Nat)
  | integer (n : Int)
  | float (x : Binary64)
  | text (s : String)
  /-- The numbers from `low` to `high`, both included. -/
  | range (low high : Binary64)
deriving DecidableEq, Inhabited

namespace Operand

/-- A float operand is plain from `0.0001` to below `10 ^ 16`, with a point always. -/
def floatLayout : Layout := ⟨fun e ↦ -4 ≤ e && e < 16, true, false, .up⟩

def isRange : Operand → Bool
  | range .. => true
  | _ => false

def pointer? : Operand → Option Nat
  | pointer index => some index
  | _ => none

def pointerText (index : Nat) : List Char := '{' :: Nat.toDigits 10 index ++ ['}']

/-- The operand as it is written in a template. -/
def write : Operand → List Char
  | pointer index => pointerText index
  | integer n => Layout.sign (n < 0) ++ Nat.toDigits 10 n.natAbs
  | float x => floatLayout.write x
  | text s => s.toList
  | range low high => Layout.positional.write low ++ '.' :: '.' :: Layout.positional.write high

/-- Equality of operands, floats as numbers. -/
def same : Operand → Operand → Bool
  | pointer i, pointer j => i == j
  | integer m, integer n => m == n
  | float x, float y => x.eq y
  | text s, text t => s == t
  | range l h, range l' h' => l.eq l' && h.eq h'
  | _, _ => false

end Operand

/-- A question about the arguments. -/
structure Comparison where
  target : Nat
  operator : Operator
  /-- The answer is turned around. -/
  negate : Bool
  operand : Operand
deriving DecidableEq, Inhabited

/-- A comparison and the text chosen when it holds. -/
structure Branch extends Comparison where
  result : String
deriving DecidableEq, Inhabited

namespace Comparison

def negated (c : Comparison) : Comparison := { c with negate := !c.negate }

def write (c : Comparison) : List Char :=
  Operand.pointerText c.target ++ (if c.negate then ['!'] else []) ++ c.operator.token.toList ++
    c.operand.write

/-- The operator is the range operator just when the operand is a range. -/
def isMatched (c : Comparison) : Bool := c.operator.isRange == c.operand.isRange

def same (c d : Comparison) : Bool :=
  c.target == d.target && c.operator == d.operator && c.negate == d.negate &&
    c.operand.same d.operand

end Comparison

namespace Branch

def negated (b : Branch) : Branch := { b with toComparison := b.toComparison.negated }

def write (b : Branch) : List Char := b.toComparison.write ++ ':' :: b.result.toList

def same (b c : Branch) : Bool := b.toComparison.same c.toComparison && b.result == c.result

def compared (b : Branch) : List Nat := b.target :: b.operand.pointer?.toList

end Branch

end Phrasing
