import Std.Data.ExtTreeMap
import Phrasing.Rendering

/-!
Stores: templates by name, with one compiler for all.

A command that fails leaves the store as it was; a batch goes on after a text that fails.
-/

namespace Phrasing

/-- Templates by name, the compiler that makes them, and how they are rendered. -/
structure Store where
  templates : Std.ExtTreeMap String Template
  compiler : Compiler
  options : Options

namespace Store

def new (options : Options) : Store := ⟨∅, .new, options⟩

/-- A template by its name, which has to be there. -/
def find (s : Store) (name : String) : Except Failure Template :=
  match s.templates[name]? with
  | some template => .ok template
  | none => .error (.unknownTemplate name)

variable [Hasher]

/-- Compiles a text and stores the template, in place of one with that name. -/
def load (s : Store) (name source : String) : Except Failure Store :=
  (s.compiler.compile source).map fun (template, compiler) ↦
    { s with templates := s.templates.insert name template, compiler }

/-- Loads a text under a name that is already there. -/
def update (s : Store) (name source : String) : Except Failure Store := do
  let _ ← s.find name
  s.load name source

def delete (s : Store) (name : String) : Except Failure Store :=
  (s.find name).map fun _ ↦ { s with templates := s.templates.erase name }

/-- Removes all templates; the compiler goes on counting. -/
def clear (s : Store) : Store := { s with templates := ∅ }

/-- Loads texts one by one and tells the names of those that could be loaded. -/
def loadBatch (s : Store) : List (String × String) → List String × Store
  | [] => ([], s)
  | (name, source) :: texts =>
    match s.load name source with
    | .error _ => s.loadBatch texts
    | .ok s' =>
      let (names, final) := s'.loadBatch texts
      (name :: names, final)

def render (s : Store) (name : String) (args : List Value) : Except Failure Rendering := do
  (← s.find name).render s.options args

/-- The store after a template was rendered. -/
def rendered (s : Store) (name : String) (args : List Value) : Store :=
  { s with templates := s.templates.modify name (Template.rendered s.options args) }

def size (s : Store) : Nat := s.templates.size

def isEmpty (s : Store) : Bool := s.templates.isEmpty

/-- The number of templates and of conditions in all of them. -/
structure Stats where
  templates : Nat
  conditions : Nat
deriving DecidableEq

/-- The number of conditions in a template, on the average. -/
def Stats.average (stats : Stats) : Binary64 :=
  if stats.templates = 0 then .finite (.zero false)
  else .nearest false stats.conditions stats.templates

def stats (s : Store) : Stats :=
  ⟨s.templates.size,
    s.templates.foldr (fun _ template n ↦ template.conditions.length + n) 0⟩

inductive Command where
  | load (name source : String)
  | update (name source : String)
  | delete (name : String)
  | clear
  /-- Goes on with a second handle to the same templates and the same compiler. -/
  | clone
  | loadBatch (texts : List (String × String))
  | get (name : String)
  | contains (name : String)
  | names
  | stats
  | render (name : String) (args : List Value)
  | renderTraced (name : String) (args : List Value)

inductive Reply where
  | done
  | loaded (names : List String)
  | template (found : Option Template)
  | present (answer : Bool)
  | names (names : List String)
  | stats (stats : Stats)
  | output (text : String)
  | rendering (rendering : Rendering)
deriving DecidableEq

/-- The store after a change that may fail. -/
def change (s : Store) : Except Failure Store → Except Failure Reply × Store
  | .ok s' => (.ok .done, s')
  | .error failure => (.error failure, s)

def run (s : Store) : Command → Except Failure Reply × Store
  | .load name source => s.change (s.load name source)
  | .update name source => s.change (s.update name source)
  | .delete name => s.change (s.delete name)
  | .clear => (.ok .done, s.clear)
  | .clone => (.ok .done, s)
  | .loadBatch texts =>
    let (names, s') := s.loadBatch texts
    (.ok (.loaded names), s')
  | .get name => (.ok (.template s.templates[name]?), s)
  | .contains name => (.ok (.present (s.templates.contains name)), s)
  | .names => (.ok (.names s.templates.keys), s)
  | .stats => (.ok (.stats s.stats), s)
  | .render name args => ((s.render name args).map fun r ↦ .output r.output, s.rendered name args)
  | .renderTraced name args => ((s.render name args).map .rendering, s.rendered name args)

def runAll (s : Store) : List Command → List (Except Failure Reply) × Store
  | [] => ([], s)
  | command :: commands =>
    let (reply, s') := s.run command
    let (replies, final) := s'.runAll commands
    (reply :: replies, final)

end Store

end Phrasing
