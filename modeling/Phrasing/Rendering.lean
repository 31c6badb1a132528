import Phrasing.Selection
import Phrasing.Template.Basic

/-!
Rendering: every condition is replaced by its lead and the result chosen, and the arguments are
then put into the whole text, once.
-/

namespace Phrasing

/-- A rendered text, the selection of each condition, and the trace if one was asked for. -/
structure Rendering where
  output : String
  selected : List Selection
  trace : List Event
deriving DecidableEq

namespace Template

variable [Hasher]

/-- The selection of a condition and the events that lead to it, if a trace is asked for. -/
def decideCondition (options : Options) (args : List Value) (index : Nat) (s : Stamped) :
    Except Failure (Selection × List Event) :=
  if options.trace then
    (s.selectTraced options args).map fun (selection, events) ↦
      (selection, .condition index s.condition :: events)
  else (s.select options args).map fun selection ↦ (selection, [])

def decideAll (options : Options) (args : List Value) (index : Nat) :
    List Stamped → Except Failure (String × List Selection × List Event)
  | [] => .ok ("", [], [])
  | s :: conditions => do
    let (selection, events) ← decideCondition options args index s
    let (text, selections, laterEvents) ← decideAll options args (index + 1) conditions
    return (s.condition.output selection ++ text, selection :: selections, events ++ laterEvents)

/-- The conditions after they were decided: those up to the first that fails are checked. -/
def checkAll (options : Options) (args : List Value) : List Stamped → List Stamped
  | [] => []
  | s :: conditions =>
    match s.select options args with
    | .ok _ => s.checked :: checkAll options args conditions
    | .error _ => s.checked :: conditions

/-- Renders a template; a condition that fails comes before a placeholder that fails. -/
def render (options : Options) (args : List Value) (t : Template) : Except Failure Rendering := do
  let (text, selections, events) ← decideAll options args 0 t.conditions
  let output ← substitute (text ++ t.tail) args
  return ⟨output, selections, events⟩

/-- The template after it was rendered, with the stamps that the checks left. -/
def rendered (options : Options) (args : List Value) (t : Template) : Template :=
  { t with conditions := checkAll options args t.conditions }

end Template

def format [Hasher] (source : String) (args : List Value) : Except Failure String := do
  let t ← compile source
  return (← t.render .standard args).output

end Phrasing
