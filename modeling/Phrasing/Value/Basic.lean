import Phrasing.Binary64.Rounding

/-!
Values: the arguments of a template, and the data form of its branches.

A whole number and a float are different kinds, even where they are the same number.
-/

namespace Phrasing

/-- A value; the fields of an object stand in ascending order of their names. -/
inductive Value where
  | null
  | bool (b : Bool)
  | integer (n : Int)
  | float (x : Binary64.Finite)
  | text (s : String)
  | array (items : List Value)
  | object (fields : List (String × Value))
deriving Inhabited

inductive Kind where
  | integer
  | float
  | text
  | boolean
  | array
  | object
deriving DecidableEq, Inhabited

namespace Kind

def name : Kind → String
  | integer => "integer"
  | float => "float"
  | text => "string"
  | boolean => "boolean"
  | array => "array"
  | object => "object"

def isNumber : Kind → Bool
  | integer | float => true
  | _ => false

end Kind

namespace Value

/-- The kind of a value; null has none. -/
def kind? : Value → Option Kind
  | null => none
  | bool _ => some .boolean
  | integer _ => some .integer
  | float _ => some .float
  | text _ => some .text
  | array _ => some .array
  | object _ => some .object

def isNull : Value → Bool
  | null => true
  | _ => false

/-- The double that stands for a number in comparisons. -/
def number? : Value → Option Binary64
  | integer n => some (.ofInt n)
  | float x => some (.finite x)
  | _ => none

/-- Puts a field at its place in the order of names. -/
def insertField (name : String) (value : Value) : List (String × Value) → List (String × Value)
  | [] => [(name, value)]
  | field :: fields =>
    if name < field.1 then (name, value) :: field :: fields
    else field :: insertField name value fields

/-- The object with these fields, whose names differ. -/
def ofFields (fields : List (String × Value)) : Value :=
  object (fields.foldr (fun field sorted ↦ insertField field.1 field.2 sorted) [])

def field? (name : String) : Value → Option Value
  | object fields => fields.lookup name
  | _ => none

mutual

/-- Equality of structure: floats are equal as numbers, and never equal to whole numbers. -/
def same : Value → Value → Bool
  | null, null => true
  | bool a, bool b => a == b
  | integer m, integer n => m == n
  | float x, float y => x.same y
  | text s, text t => s == t
  | array xs, array ys => sameItems xs ys
  | object xs, object ys => sameFields xs ys
  | _, _ => false

def sameItems : List Value → List Value → Bool
  | [], [] => true
  | x :: xs, y :: ys => same x y && sameItems xs ys
  | _, _ => false

def sameFields : List (String × Value) → List (String × Value) → Bool
  | [], [] => true
  | (name, x) :: xs, (name', y) :: ys => name == name' && same x y && sameFields xs ys
  | _, _ => false

end

end Value

end Phrasing
