import Phrasing.Branch.Literal
import Phrasing.Condition.Basic

/-!
Conditions read into one record.

The record has a slot for everything that a branch can have, and is emptied after each branch. A
slot does not say when it is filled, so what is taken out of one that may be empty, or is read
twice, can fail in a way of its own.
-/

namespace Phrasing

namespace Draft

/-- What a reader expects next. -/
inductive State where
  /-- A target, or the mark of the fallback. -/
  | target
  /-- The colon after the mark of the fallback. -/
  | separator
  | comparison
  | result
deriving DecidableEq

/-- Which part of a range is read. -/
inductive Phase where
  | low
  /-- After the first of the two points. -/
  | point
  | high
deriving DecidableEq

/-- A range under way. -/
structure Span where
  phase : Phase
  low : String
  high : String
deriving DecidableEq

def Span.empty : Span := ⟨.low, "", ""⟩

/-- A branch under way. -/
structure Slots where
  target : Option Nat
  /-- The digits of the target, inside its braces. -/
  digits : Option String
  negate : Bool
  token : String
  operator : Option Operator
  span : Option Span
  operandText : String
  operandStart : Nat
  operand : Option Operand
  isFallback : Bool
  result : String
deriving DecidableEq

def Slots.empty : Slots := ⟨none, none, false, "", none, none, "", 0, none, false, ""⟩

/-- The branch in the slots, if those that it needs are filled. -/
def Slots.branch? (slots : Slots) (result : String) : Option Branch := do
  return ⟨⟨← slots.target, ← slots.operator, slots.negate, ← slots.operand⟩, result⟩

end Draft

/-- A condition under way. -/
structure Draft where
  condition : Condition
  state : Draft.State
  slots : Draft.Slots
deriving DecidableEq

namespace Draft

def start (lead : String) : Draft := ⟨Condition.ofLead lead, .target, .empty⟩

def feedPointer (d : Draft) (offset : Nat) (c : Char) : Except Failure Draft :=
  let digits := d.slots.digits.getD ""
  if c.isDigit then .ok { d with slots.digits := some (digits.push c) }
  else if c ≠ '}' then .error (.malformed offset (.badPointer ("\x7b" ++ digits.push c)))
  else if digits.isEmpty then .error (.malformed offset .emptyPointer)
  else match Numeral.index? digits.toList with
    | some index =>
      .ok { d with state := .comparison, slots.digits := none, slots.target := some index }
    | none => .error (.malformed offset (.badPointer ("\x7b" ++ digits ++ "\x7d")))

def feedTarget (d : Draft) (offset : Nat) (c : Char) : Except Failure Draft :=
  if d.slots.digits.isSome then d.feedPointer offset c
  else if c = '{' then .ok { d with slots.digits := some "" }
  else if c = '*' then .ok { d with state := .separator, slots.isFallback := true }
  else .error (.malformed offset (.unexpected c .target))

def feedSeparator (d : Draft) (offset : Nat) (c : Char) : Except Failure Draft :=
  if c = ':' then .ok { d with state := .result }
  else .error (.malformed offset (.unexpected c .colon))

def badRange {α : Type} (offset : Nat) (fault : RangeFault) : Except Failure α :=
  .error (.malformed offset (.badRange fault))

/-- The bounds of a range, which are read as doubles. -/
def Span.read (span : Span) (offset : Nat) : Except Failure Operand :=
  match Binary64.read? span.low.toList, Binary64.read? span.high.toList with
  | none, _ => badRange offset .badLow
  | some _, none => badRange offset .badHigh
  | some low, some high => .ok (.range low high)

def feedSpan (d : Draft) (offset : Nat) (c : Char) : Except Failure Draft :=
  match d.slots.span with
  | none => badRange offset .noRange
  | some span =>
    match span.phase with
    | .low =>
      if c.isDigit then .ok { d with slots.span := some { span with low := span.low.push c } }
      else if c ≠ '.' ∧ c ≠ ':' then badRange offset .strayCharacter
      else if span.low.isEmpty then badRange offset .noLow
      else if c = '.' then .ok { d with slots.span := some { span with phase := .point } }
      else badRange offset .noSeparator
    | .point =>
      if c = '.' then .ok { d with slots.span := some { span with phase := .high } }
      else badRange offset .brokenSeparator
    | .high =>
      if c.isDigit then .ok { d with slots.span := some { span with high := span.high.push c } }
      else if c = '.' then badRange offset .pointAfterHigh
      else if c ≠ ':' then badRange offset .strayCharacter
      else if span.high.isEmpty then badRange offset .noHigh
      else do
        let operand ← span.read offset
        return { d with state := .result, slots.span := none, slots.operand := some operand }

def feedOperand (d : Draft) (offset : Nat) (c : Char) : Except Failure Draft :=
  let text := d.slots.operandText
  if c ≠ ':' then
    .ok { d with
      slots.operandStart := if text.isEmpty then offset else d.slots.operandStart,
      slots.operandText := text.push c }
  else if text.isEmpty then .error (.malformed offset .noOperand)
  else do
    let operand ← Operand.read d.slots.operandStart text.toList
    return { d with state := .result, slots.operand := some operand }

def feedOperator (d : Draft) (offset : Nat) (c : Char) : Except Failure Draft :=
  let token := d.slots.token
  if c = '!' ∧ token.isEmpty then
    if d.slots.negate then .error (.malformed offset (.unexpected c .operator))
    else .ok { d with slots.negate := true }
  else if Operator.isMark c then
    match Operator.ofToken? (token.push c) with
    | none => .error (.malformed offset (.badOperator (token.push c)))
    | some o =>
      if o.isRange then
        .ok { d with
          slots.token := token.push c, slots.operator := some o, slots.span := some .empty }
      else .ok { d with slots.token := token.push c }
  else match Operator.ofToken? token with
    | none => .error (.malformed offset .noOperator)
    -- the first other character settles the operator and belongs to the operand
    | some o => { d with slots.operator := some o : Draft }.feedOperand offset c

def feedComparison (d : Draft) (offset : Nat) (c : Char) : Except Failure Draft :=
  if d.slots.span.isSome then d.feedSpan offset c
  else if d.slots.operator.isNone then d.feedOperator offset c
  else d.feedOperand offset c

def feedResult (d : Draft) (offset : Nat) (c : Char) : Except Failure Draft :=
  if c ≠ '|' then .ok { d with slots.result := d.slots.result.push c }
  else if d.slots.isFallback then .error (.malformed offset .fallbackNotLast)
  else
    let result := Text.trimmed d.slots.result
    if result.isEmpty then .error (.malformed offset .noResult)
    else match d.slots.branch? result with
      | none => .error (.unsound .incomplete)
      | some branch => .ok ⟨d.condition.push branch, .target, .empty⟩

def next (d : Draft) (offset : Nat) (c : Char) : Except Failure Draft :=
  match d.state with
  | .target => d.feedTarget offset c
  | .separator => d.feedSeparator offset c
  | .comparison => d.feedComparison offset c
  | .result => d.feedResult offset c

/-- Reads one character, which stands at `offset`; blanks count in results only. -/
def feed (d : Draft) (offset : Nat) (c : Char) : Except Failure Draft :=
  if Text.isBlank c = true ∧ d.state ≠ .result then .ok d else d.next offset c

def feedAll (d : Draft) (offset : Nat) : List Char → Except Failure Draft
  | [] => .ok d
  | c :: s => do (← d.feed offset c).feedAll (offset + 1) s

/-- What the condition is when it ends at `offset`. -/
def close (d : Draft) (offset : Nat) : Except Failure Condition :=
  match d.state with
  | .result =>
    if d.slots.isFallback then
      let result := Text.trimmed d.slots.result
      if result.isEmpty then .error (.malformed offset .noResult)
      else .ok (d.condition.setFallback result)
    else .error (.malformed offset .noFallback)
  | .target =>
    if d.slots.digits.isSome then .error (.malformed offset (.endsEarly .brace))
    else .error (.malformed offset .noFallback)
  | .separator => .error (.malformed offset (.endsEarly .colon))
  | .comparison => .error (.malformed offset (.endsEarly .comparison))

/-- Reads the text between two quotes, which starts at `offset`. -/
def read (lead : String) (offset : Nat) (body : List Char) : Except Failure Condition := do
  (← (start lead).feedAll offset body).close (offset + body.length)

end Draft

end Phrasing
