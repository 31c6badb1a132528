import Phrasing.Branch.Literal
import Phrasing.Condition.Basic

/-!
Conditions while they are read, character by character.

Blanks are skipped outside results. Each stage keeps just what the branch under way still needs,
so a branch can only be added whole.
-/

namespace Phrasing

structure Head where
  target : Nat
  negate : Bool
deriving DecidableEq

/-- Where in a branch a reader stands, and what it has read of it. -/
inductive Stage where
  /-- Before the target, or the mark of the fallback. -/
  | target
  | pointer (digits : String)
  | mark
  | operator (head : Head) (token : String)
  | rangeLow (head : Head) (low : String)
  /-- After the first of the two points. -/
  | rangeDot (head : Head) (low : String)
  | rangeHigh (head : Head) (low high : String)
  /-- Inside an operand that starts at that offset. -/
  | operand (head : Head) (operator : Operator) (start : Nat) (text : String)
  | result (comparison : Comparison) (text : String)
  | fallback (text : String)
deriving DecidableEq

namespace Stage

def bound (digits : String) : Binary64 := (Decimal.ofDigits digits.toList).toBinary64 false

def nextPointer (digits : String) (offset : Nat) (c : Char) : Except Failure Stage :=
  if c.isDigit then .ok (pointer (digits.push c))
  else if c ≠ '}' then .error (.malformed offset (.badPointer ("\x7b" ++ digits.push c)))
  else if digits.isEmpty then .error (.malformed offset .emptyPointer)
  else match Numeral.index? digits.toList with
    | some index => .ok (operator ⟨index, false⟩ "")
    | none => .error (.malformed offset (.badPointer ("\x7b" ++ digits.push c)))

def startOperand (head : Head) (o : Operator) (offset : Nat) (c : Char) : Except Failure Stage :=
  if c = ':' then .error (.malformed offset .noOperand)
  else .ok (operand head o offset (String.singleton c))

def nextOperator (head : Head) (token : String) (offset : Nat) (c : Char) : Except Failure Stage :=
  if c = '!' ∧ token.isEmpty then
    if head.negate then .error (.malformed offset (.unexpected c .operator))
    else .ok (operator { head with negate := true } token)
  else if Operator.isMark c then
    match Operator.ofToken? (token.push c) with
    | none => .error (.malformed offset (.badOperator (token.push c)))
    | some o => .ok (if o.isRange then rangeLow head "" else operator head (token.push c))
  else match Operator.ofToken? token with
    | none => .error (.malformed offset .noOperator)
    | some o => startOperand head o offset c

def badRange (offset : Nat) (fault : RangeFault) : Except Failure Stage :=
  .error (.malformed offset (.badRange fault))

def nextRangeLow (head : Head) (low : String) (offset : Nat) (c : Char) : Except Failure Stage :=
  if c.isDigit then .ok (rangeLow head (low.push c))
  else if c ≠ '.' ∧ c ≠ ':' then badRange offset .strayCharacter
  else if low.isEmpty then badRange offset .noLow
  else if c = '.' then .ok (rangeDot head low)
  else badRange offset .noSeparator

def nextRangeDot (head : Head) (low : String) (offset : Nat) (c : Char) : Except Failure Stage :=
  if c = '.' then .ok (rangeHigh head low "") else badRange offset .brokenSeparator

def nextRangeHigh (head : Head) (low high : String) (offset : Nat) (c : Char) :
    Except Failure Stage :=
  if c.isDigit then .ok (rangeHigh head low (high.push c))
  else if c = '.' then badRange offset .pointAfterHigh
  else if c ≠ ':' then badRange offset .strayCharacter
  else if high.isEmpty then badRange offset .noHigh
  else .ok (result ⟨head.target, .range, head.negate, .range (bound low) (bound high)⟩ "")

def nextOperand (head : Head) (o : Operator) (start : Nat) (text : String) (c : Char) :
    Except Failure Stage :=
  if c ≠ ':' then .ok (operand head o start (text.push c))
  else (Operand.read start text.toList).map fun x ↦ result ⟨head.target, o, head.negate, x⟩ ""

def isVerbatim : Stage → Bool
  | result .. | fallback _ => true
  | _ => false

/-- The stage after a character that neither is skipped nor ends a branch. -/
def next (offset : Nat) (c : Char) : Stage → Except Failure Stage
  | target =>
    if c = '{' then .ok (pointer "")
    else if c = '*' then .ok mark
    else .error (.malformed offset (.unexpected c .target))
  | pointer digits => nextPointer digits offset c
  | mark =>
    if c = ':' then .ok (fallback "") else .error (.malformed offset (.unexpected c .colon))
  | operator head token => nextOperator head token offset c
  | rangeLow head low => nextRangeLow head low offset c
  | rangeDot head low => nextRangeDot head low offset c
  | rangeHigh head low high => nextRangeHigh head low high offset c
  | operand head o start text => nextOperand head o start text c
  | result comparison text => .ok (result comparison (text.push c))
  | fallback text => .ok (fallback (text.push c))

end Stage

/-- A condition under way: its complete branches, and where in the next one the reader stands. -/
structure Pending where
  branches : List Branch
  stage : Stage
deriving DecidableEq

namespace Pending

def start : Pending := ⟨[], .target⟩

/-- Reads one character of the body, which stands at `offset`. -/
def feed (p : Pending) (offset : Nat) (c : Char) : Except Failure Pending :=
  match p.stage, c with
  | .result comparison text, '|' =>
    if Text.isBlankText text then .error (.malformed offset .noResult)
    else .ok ⟨p.branches ++ [⟨comparison, Text.trimmed text⟩], .target⟩
  | .fallback _, '|' => .error (.malformed offset .fallbackNotLast)
  | stage, c =>
    if Text.isBlank c && !stage.isVerbatim then .ok p
    else (stage.next offset c).map ({ p with stage := · })

def feedAll (p : Pending) (offset : Nat) : List Char → Except Failure Pending
  | [] => .ok p
  | c :: s => do (← p.feed offset c).feedAll (offset + 1) s

def close (p : Pending) (offset : Nat) : Except Failure (List Branch × String) :=
  match p.stage with
  | .fallback text =>
    if Text.isBlankText text then .error (.malformed offset .noResult)
    else .ok (p.branches, Text.trimmed text)
  | .target | .result .. => .error (.malformed offset .noFallback)
  | .pointer _ => .error (.malformed offset (.endsEarly .brace))
  | .mark => .error (.malformed offset (.endsEarly .colon))
  | _ => .error (.malformed offset (.endsEarly .comparison))

end Pending

namespace Condition

/-- Reads the text between two quotes, which starts at `offset`. -/
def read (lead : String) (offset : Nat) (body : List Char) : Except Failure Condition := do
  let p ← Pending.start.feedAll offset body
  let (branches, fallback) ← p.close (offset + body.length)
  return ⟨lead, branches, some fallback⟩

end Condition

end Phrasing
