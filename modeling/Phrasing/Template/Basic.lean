import Phrasing.Placeholder
import Phrasing.Template.Source

/-!
Templates: conditions in order and a tail, with the indices of all arguments they refer to.
-/

namespace Phrasing

/-- A template that was read and checked. -/
structure Template where
  source : String
  conditions : List Stamped
  tail : String
  indices : List Nat
  /-- How many templates the compiler had made, with this one. -/
  version : Nat
deriving DecidableEq, Inhabited

namespace Condition

def indices (c : Condition) : List Nat :=
  placeholders c.lead ++
    c.branches.flatMap (fun branch ↦ branch.compared ++ placeholders branch.result) ++
    c.fallback.toList.flatMap placeholders

end Condition

namespace Template

def ascending (ns : List Nat) : List Nat := ns.mergeSort.eraseDups

def indicesOf (conditions : List Stamped) (tail : String) : List Nat :=
  ascending (conditions.flatMap (fun s ↦ s.condition.indices) ++ placeholders tail)

/-- The least number of arguments that reaches all indices, but never more than `lastIndex`. -/
def requiredArgs (t : Template) : Nat :=
  match t.indices.getLast? with
  | none => 0
  | some greatest => min (greatest + 1) Numeral.lastIndex

end Template

/-- A compiler counts the templates it has made. -/
structure Compiler where
  count : Nat
deriving DecidableEq

namespace Compiler

def new : Compiler := ⟨0⟩

/-- Makes a template; a text that fails does not count. -/
def compile [Hasher] (compiler : Compiler) (source : String) :
    Except Failure (Template × Compiler) := do
  let (conditions, tail) ← Template.readSource source
  let count := compiler.count + 1
  return (⟨source, conditions, tail, Template.indicesOf conditions tail, count⟩, ⟨count⟩)

end Compiler

def compile [Hasher] (source : String) : Except Failure Template :=
  (Compiler.new.compile source).map Prod.fst

end Phrasing
