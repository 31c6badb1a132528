import Phrasing.Argument

/-!
Comparisons decided on an argument list.

Kinds have to agree before values are compared: whole numbers and floats are different kinds when
the options are strict. Numbers compare as doubles; all other kinds know equality only.
-/

namespace Phrasing

structure Options where
  /-- Whole numbers and floats are different kinds. -/
  strict : Bool
  /-- The rendering tells which comparisons were made. -/
  trace : Bool
deriving DecidableEq

namespace Options

def standard : Options := ⟨true, false⟩

instance : Inhabited Options := ⟨standard⟩

def agree (options : Options) (a b : Kind) : Bool :=
  a == b || (!options.strict && a.isNumber && b.isNumber)

end Options

inductive Comparand where
  | number (x : Binary64) (kind : Kind)
  | text (s : String)
  | other (value : Value) (kind : Kind)

namespace Comparand

/-- An argument under comparison; null, which is never compared, would count as an object. -/
def ofValue (value : Value) : Comparand :=
  match value with
  | .integer n => number (.ofInt n) .integer
  | .float x => number (.finite x) .float
  | .text s => text s
  | value => other value (value.kind?.getD .object)

/-- An operand under comparison, which cannot be a range. -/
def ofOperand (args : List Value) : Operand → Except Failure Comparand
  | .pointer index => (resolve args index).map ofValue
  | .integer n => .ok (number (.ofInt n) .integer)
  | .float x => .ok (number x .float)
  | .text s => .ok (text s)
  | .range .. => .error (.unsound .strayRange)

def kind : Comparand → Kind
  | number _ kind => kind
  | text _ => .text
  | other _ kind => kind

/-- Kinds other than numbers are compared for equality only. -/
def equalityOnly (operator : Operator) (kind : Kind) (answer : Bool) : Except Failure Bool :=
  if operator = .equal then .ok answer else .error (.unsupported operator kind)

def compare (operator : Operator) : Comparand → Comparand → Except Failure Bool
  | number x _, number y _ => .ok (operator.compare x y)
  | text s, text t => equalityOnly operator .text (s == t)
  | other v kind, other w _ => equalityOnly operator kind (v.same w)
  | a, b => .error (.mismatch a.kind b.kind)

/-- Whether the target lies in a range, which must not be empty. -/
def inRange (low high : Binary64) : Comparand → Except Failure Bool
  | number x _ =>
    if high.le low then .error (.emptyRange low high) else .ok (low.le x && x.le high)
  | target => .error (.rangeMismatch target.kind)

/-- Compares two values, after their kinds. -/
def relate (options : Options) (operator : Operator) (target operand : Comparand) :
    Except Failure Bool :=
  if options.agree target.kind operand.kind then compare operator target operand
  else .error (.mismatch target.kind operand.kind)

end Comparand

namespace Comparison

/-- Whether the target stands to the operand as the operator says, before any negation. -/
def matched (options : Options) (args : List Value) (c : Comparison) : Except Failure Bool := do
  let target := Comparand.ofValue (← resolve args c.target)
  match c.operator, c.operand with
  | .range, .range low high => target.inRange low high
  | .range, operand => .error (.unsound (.notRange operand))
  | operator, operand => target.relate options operator (← Comparand.ofOperand args operand)

def evaluate (options : Options) (args : List Value) (c : Comparison) : Except Failure Bool :=
  (c.matched options args).map (c.negate != ·)

end Comparison

end Phrasing
