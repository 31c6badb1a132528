import Mathlib.Logic.Function.Basic
import Phrasing.Store

/-!
Sessions: several handles to one store, each of which can be used at any time.

A clone of a handle shares its templates and its compiler, and has a copy of its options.
-/

namespace Phrasing

/-- The templates and the compiler that all handles share, and the options of each handle. -/
structure Session (ι : Type) where
  templates : Std.ExtTreeMap String Template
  compiler : Compiler
  options : ι → Options

namespace Session

variable {ι : Type}

def new (options : Options) : Session ι := ⟨∅, .new, fun _ ↦ options⟩

/-- The store behind a handle. -/
def store (w : Session ι) (i : ι) : Store := ⟨w.templates, w.compiler, w.options i⟩

inductive Step (ι : Type) where
  | command (i : ι) (command : Store.Command)
  | size (i : ι)
  | isEmpty (i : ι)
  /-- Puts a clone of the first handle in place of the second. -/
  | clone (i j : ι)

inductive Answer where
  | reply (reply : Except Failure Store.Reply)
  | size (size : Nat)
  | isEmpty (answer : Bool)
  | cloned

variable [Hasher] [DecidableEq ι]

def run (w : Session ι) : Step ι → Answer × Session ι
  | .command i command =>
    let (reply, s) := (w.store i).run command
    (.reply reply, { w with templates := s.templates, compiler := s.compiler })
  | .size i => (.size (w.store i).size, w)
  | .isEmpty i => (.isEmpty (w.store i).isEmpty, w)
  | .clone i j => (.cloned, { w with options := Function.update w.options j (w.options i) })

def runAll (w : Session ι) : List (Step ι) → List Answer × Session ι
  | [] => ([], w)
  | step :: steps =>
    let (answer, w') := w.run step
    let (answers, final) := w'.runAll steps
    (answer :: answers, final)

end Session

end Phrasing
