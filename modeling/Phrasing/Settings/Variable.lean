import Phrasing.Settings.Tree

/-!
Settings given by variables: the name is the path of a setting, and the value is guessed.
-/

namespace Phrasing.Settings.Variable

/-- The lower case of names; the Kelvin sign is the one letter beyond ASCII whose is in ASCII. -/
def lower (c : Char) : Char := if c = '\u212a' then 'k' else c.toLower

def lead : List Char := ['c', 'f', 'm', 't', '_']

/-- The text with a point in place of every two underscores. -/
def pointed : List Char → List Char
  | '_' :: '_' :: s => '.' :: pointed s
  | c :: s => c :: pointed s
  | [] => []

/-- The key of the setting that a variable gives, if it gives one. -/
def key? (name : String) : Option String :=
  let name := name.toList.map lower
  if lead.isPrefixOf name then some (String.ofList (pointed (name.drop lead.length))) else none

/-- A value is a truth value, else a whole number, else a float, else a text. -/
def value (s : String) : Tree :=
  let word := s.toList.map Char.toLower
  if word = ['t', 'r', 'u', 'e'] then .bool true
  else if word = ['f', 'a', 'l', 's', 'e'] then .bool false
  else match Numeral.literal? s.toList with
    | some n => .integer n
    | none =>
      match Binary64.read? s.toList with
      | some x => .float x
      | none => .text s

def layer (assignments : List (String × String)) : Layer :=
  assignments.filterMap fun (name, s) ↦ (key? name).map fun key ↦ (key, value s)

end Phrasing.Settings.Variable
