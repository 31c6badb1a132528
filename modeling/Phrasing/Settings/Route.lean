import Phrasing.Numeral

/-!
Keys of settings as routes: names with points between them, and indices in brackets.

A key that is not written as a route is one name.
-/

namespace Phrasing.Settings

def isGap (c : Char) : Bool := c == ' ' || c == '\t'

def skipGap (s : List Char) : List Char := s.dropWhile isGap

def isNameChar (c : Char) : Bool := c.isAlphanum || c == '_' || c == '-'

def bareName? (s : List Char) : Option (String × List Char) :=
  match s.takeWhile isNameChar with
  | [] => none
  | name => some (String.ofList name, s.dropWhile isNameChar)

/-- An index, up to the bracket that closes it; it may count from the end of the list. -/
def index? (s : List Char) : Option (Int × List Char) :=
  let isMark (c : Char) : Bool := c.isDigit || c == '-'
  let s := skipGap s
  match Numeral.literal? (s.takeWhile isMark), skipGap (s.dropWhile isMark) with
  | some i, ']' :: rest => some (i, rest)
  | _, _ => none

/-- A step into a tree of settings: to what has a name in a table, or to an item of a list. -/
inductive Step where
  | name (s : String)
  | index (i : Int)
deriving DecidableEq

/-- Where a key leads. -/
abbrev Route := List Step

namespace Route

/-- The route of at most that many steps, each a name after a point or an index in brackets. -/
def ofSteps? : Nat → List Char → Option Route
  | _, [] => some []
  | n + 1, '.' :: s => do
    let (name, rest) ← bareName? s
    return .name name :: (← ofSteps? n rest)
  | n + 1, '[' :: s => do
    let (i, rest) ← index? s
    return .index i :: (← ofSteps? n rest)
  | _, _ => none

/-- The route of a key, read as if a point stood before it; any other key is one name. -/
def ofKey (key : String) : Route :=
  (ofSteps? (key.length + 1) ('.' :: key.toList)).getD [.name key]

end Route

end Phrasing.Settings
