import Phrasing.Branch.Basic
import Phrasing.Value.Basic
import Phrasing.Numeral

/-!
Branches as data: an object with a field for each part, the operand under the name of its form.

Reading takes more than writing gives: parts may stand in a list in the order of their fields,
`negate` may be missing from an object, fields with other names are passed over, and a whole
number may stand where a float is meant. A double that is not finite is written as null, which is
not read back.
-/

namespace Phrasing

namespace Value

def index? : Value → Option Nat
  | integer (.ofNat n) => if n < Numeral.indexLimit then some n else none
  | _ => none

def literal? : Value → Option Int
  | integer n => if Numeral.isLiteral n then some n else none
  | _ => none

def bool? : Value → Option Bool
  | bool b => some b
  | _ => none

def text? : Value → Option String
  | text s => some s
  | _ => none

/-- A name, given as a text or as the one field of an object, whose value is null. -/
def name? : Value → Option String
  | text s => some s
  | object [(name, null)] => some name
  | _ => none

def ofBinary64 : Binary64 → Value
  | .finite x => float x
  | _ => null

end Value

namespace Operand

def form : Operand → String
  | pointer _ => "pointer"
  | integer _ => "integer"
  | float _ => "float"
  | text _ => "text"
  | range .. => "range"

def content : Operand → Value
  | pointer index => .integer index
  | integer n => .integer n
  | float x => .ofBinary64 x
  | text s => .text s
  | range low high => .ofFields [("low", .ofBinary64 low), ("high", .ofBinary64 high)]

def toValue (x : Operand) : Value := .ofFields [("type", .text x.form), ("value", x.content)]

/-- A range, which is always given by the names of its bounds. -/
def rangeOfValue? (v : Value) : Option Operand := do
  let low ← (← v.field? "low").number?
  let high ← (← v.field? "high").number?
  return range low high

def ofContent? (form : String) (v : Value) : Option Operand :=
  if form = "pointer" then v.index?.map pointer
  else if form = "integer" then v.literal?.map integer
  else if form = "float" then v.number?.map float
  else if form = "text" then v.text?.map text
  else if form = "range" then rangeOfValue? v
  else none

def ofValue? (v : Value) : Option Operand := do
  match v with
  | .array [form, content] => ofContent? (← form.name?) content
  | v => ofContent? (← (← v.field? "type").name?) (← v.field? "value")

end Operand

namespace Branch

def toValue (b : Branch) : Value :=
  .ofFields [("target", .integer b.target), ("operator", .text b.operator.name),
    ("negate", .bool b.negate), ("operand", b.operand.toValue), ("result", .text b.result)]

def ofParts? (target operator negate operand result : Value) : Option Branch := do
  let target ← target.index?
  let operator ← Operator.ofName? (← operator.name?)
  let negate ← negate.bool?
  let operand ← Operand.ofValue? operand
  let result ← result.text?
  return ⟨⟨target, operator, negate, operand⟩, result⟩

def ofValue? (v : Value) : Option Branch := do
  match v with
  | .array [target, operator, negate, operand, result] =>
    ofParts? target operator negate operand result
  | v =>
    ofParts? (← v.field? "target") (← v.field? "operator")
      ((v.field? "negate").getD (.bool false)) (← v.field? "operand") (← v.field? "result")

end Branch

end Phrasing
