import Phrasing.Evaluation

/-!
Comparisons decided under watch.

Deciding a comparison has answers ready for cases that the steps before it should leave out: a number
that no double stands for, a value without a kind, values of different forms whose kinds agree, a range
as an order of two numbers. Here each of these answers is given in its place, and that it was given is
noted.
-/

namespace Phrasing

/-- An answer to a case that should not arise. -/
inductive Stopgap where
  /-- A number without a double is not a number. -/
  | double
  /-- A number without a kind is a float. -/
  | numberKind
  /-- Any other value without a kind is an object. -/
  | otherKind
  /-- Values of different forms do not agree in their kinds. -/
  | forms
  /-- As an order of two numbers, a range never holds. -/
  | range
deriving DecidableEq

/-- What a step comes to, and the stopgaps that were used on the way. -/
structure Watched (α : Type) where
  outcome : Except Failure α
  stopgaps : List Stopgap

namespace Watched

instance : Monad Watched where
  pure a := ⟨.ok a, []⟩
  bind x f :=
    match x.outcome with
    | .ok a => ⟨(f a).outcome, x.stopgaps ++ (f a).stopgaps⟩
    | .error failure => ⟨.error failure, x.stopgaps⟩

/-- A step that has no stopgap. -/
def lift {α : Type} (x : Except Failure α) : Watched α := ⟨x, []⟩

def use {α : Type} (stopgap : Stopgap) (x : Except Failure α) : Watched α := ⟨x, [stopgap]⟩

/-- What is there, or else what the stopgap says. -/
def orElse {α : Type} (x : Option α) (stopgap : Stopgap) (a : α) : Watched α :=
  match x with
  | some a => pure a
  | none => use stopgap (.ok a)

/-- An argument under comparison; that it is not null was checked before. -/
def ofValue (value : Value) : Watched Comparand :=
  match value with
  | .integer _ | .float _ => do
    let x ← orElse value.number? .double (.nan (.quiet false))
    let kind ← orElse value.kind? .numberKind .float
    return .number x kind
  | .text s => return .text s
  | value => return .other value (← orElse value.kind? .otherKind .object)

def ofOperand (args : List Value) : Operand → Watched Comparand
  | .pointer index => do ofValue (← lift (resolve args index))
  | .integer n => return .number (.ofInt n) .integer
  | .float x => return .number x .float
  | .text s => return .text s
  | .range .. => lift (.error (.unsound .strayRange))

def compareNumbers (operator : Operator) (x y : Binary64) : Watched Bool :=
  match operator with
  | .range => use .range (.ok false)
  | operator => return operator.compare x y

def compare (operator : Operator) : Comparand → Comparand → Watched Bool
  | .number x _, .number y _ => compareNumbers operator x y
  | .text s, .text t => lift (Comparand.equalityOnly operator .text (s == t))
  | .other v kind, .other w _ => lift (Comparand.equalityOnly operator kind (v.same w))
  | a, b => use .forms (.error (.mismatch a.kind b.kind))

def relate (options : Options) (operator : Operator) (target operand : Comparand) : Watched Bool :=
  if options.agree target.kind operand.kind then compare operator target operand
  else lift (.error (.mismatch target.kind operand.kind))

def matched (options : Options) (args : List Value) (c : Comparison) : Watched Bool := do
  let target ← ofValue (← lift (resolve args c.target))
  match c.operator, c.operand with
  | .range, .range low high => lift (target.inRange low high)
  | .range, operand => lift (.error (.unsound (.notRange operand)))
  | operator, operand => relate options operator target (← ofOperand args operand)

def evaluate (options : Options) (args : List Value) (c : Comparison) : Watched Bool := do
  return c.negate != (← matched options args c)

end Watched

end Phrasing
