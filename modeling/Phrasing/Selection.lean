import Phrasing.Condition.Stamped
import Phrasing.Evaluation

/-!
Choosing a result of a condition: the first branch that holds, else the fallback.

A selection can be traced. The trace tells each comparison that was made, in order.
-/

namespace Phrasing

inductive Selection where
  | branch (index : Nat)
  | fallback
deriving DecidableEq, Inhabited

inductive Event where
  | condition (index : Nat) (condition : Condition)
  | branch (index : Nat) (branch : Branch) (holds : Bool)
  | fallback
deriving DecidableEq

namespace Event

def line : Event → String
  | condition index c =>
    "conditions[" ++ toString index ++ "]: 开始评估 " ++ String.ofList c.write ++ " (共 " ++
      toString c.branches.length ++ " 个分支)"
  | branch index b holds =>
    "branches[" ++ toString index ++ "]: " ++ String.ofList b.write ++ " => " ++
      (if holds then "MATCHED" else "NOT_MATCHED")
  | fallback => "else => SELECTED"

end Event

namespace Branch

/-- The first branch that holds, where branches are counted from `index`. -/
def choose (options : Options) (args : List Value) (index : Nat) :
    List Branch → Except Failure Selection
  | [] => .ok .fallback
  | branch :: branches => do
    if ← branch.evaluate options args then .ok (.branch index)
    else choose options args (index + 1) branches

/-- The first branch that holds, with all comparisons made up to it. -/
def chooseTraced (options : Options) (args : List Value) (index : Nat) :
    List Branch → Except Failure (Selection × List Event)
  | [] => .ok (.fallback, [.fallback])
  | branch :: branches => do
    let holds ← branch.evaluate options args
    let event := Event.branch index branch holds
    if holds then .ok (.branch index, [event])
    else
      let (selection, events) ← chooseTraced options args (index + 1) branches
      return (selection, event :: events)

end Branch

namespace Condition

def result? (c : Condition) : Selection → Option String
  | .branch index => c.branches[index]?.map Branch.result
  | .fallback => c.fallback

def output (c : Condition) (selection : Selection) : String :=
  c.lead ++ (c.result? selection).getD ""

end Condition

namespace Stamped

variable [Hasher]

/-- Checks the condition, then chooses a result. -/
def select (options : Options) (args : List Value) (s : Stamped) : Except Failure Selection := do
  let s ← s.validate
  Branch.choose options args 0 s.condition.branches

def selectTraced (options : Options) (args : List Value) (s : Stamped) :
    Except Failure (Selection × List Event) := do
  let s ← s.validate
  Branch.chooseTraced options args 0 s.condition.branches

def apply (options : Options) (args : List Value) (s : Stamped) : Except Failure String :=
  (s.select options args).map s.condition.output

end Stamped

end Phrasing
