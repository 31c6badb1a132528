import Phrasing.Binary64.Basic

/-!
The operators of comparisons: their tokens, their names, and what they mean on doubles.
-/

namespace Phrasing

/-- How a comparison relates its target to its operand. -/
inductive Operator where
  | equal
  | less
  | lessOrEqual
  | greater
  | greaterOrEqual
  /-- The target lies in a closed range. -/
  | range
deriving DecidableEq, Inhabited

namespace Operator

def all : List Operator := [equal, less, lessOrEqual, greater, greaterOrEqual, range]

def token : Operator → String
  | equal => "="
  | less => "<"
  | lessOrEqual => "<="
  | greater => ">"
  | greaterOrEqual => ">="
  | range => "~"

def name : Operator → String
  | equal => "equal"
  | less => "less"
  | lessOrEqual => "less_or_equal"
  | greater => "greater"
  | greaterOrEqual => "greater_or_equal"
  | range => "range"

def ofToken? (s : String) : Option Operator := all.find? fun o ↦ o.token == s

def ofName? (s : String) : Option Operator := all.find? fun o ↦ o.name == s

def isMark (c : Char) : Bool := c == '~' || c == '<' || c == '>' || c == '='

def isRange (o : Operator) : Bool := o == range

/-- Compares two doubles; a range is no comparison of two numbers. -/
def compare : Operator → Binary64 → Binary64 → Bool
  | equal, x, y => x.eq y
  | less, x, y => x.lt y
  | lessOrEqual, x, y => x.le y
  | greater, x, y => y.lt x
  | greaterOrEqual, x, y => y.le x
  | range, _, _ => false

theorem ofToken?_token (o : Operator) : ofToken? o.token = some o := by
  cases o <;> simp [ofToken?, all, token]

theorem ofName?_name (o : Operator) : ofName? o.name = some o := by
  cases o <;> simp [ofName?, all, name]

end Operator

end Phrasing
