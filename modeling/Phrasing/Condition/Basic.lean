import Phrasing.Branch.Basic
import Phrasing.Failure
import Phrasing.Text.Blank

/-!
Conditions: a lead text, branches in order, and a fallback result.

A condition is sound when it can be decided and written out: it has a branch and a fallback, no
result is blank, and ranges stand with the range operator only.
-/

namespace Phrasing

/-- A text followed by the result of the first branch that holds, else by the fallback. -/
structure Condition where
  lead : String
  branches : List Branch
  fallback : Option String
deriving DecidableEq, Inhabited

namespace Condition

def ofLead (lead : String) : Condition := ⟨lead, [], none⟩

def push (c : Condition) (branch : Branch) : Condition :=
  { c with branches := c.branches ++ [branch] }

def setFallback (c : Condition) (result : String) : Condition := { c with fallback := some result }

def write (c : Condition) : List Char :=
  c.lead.toList ++ '\'' :: c.branches.flatMap (fun branch ↦ branch.write ++ ['|']) ++
    (match c.fallback with
      | some result => '*' :: ':' :: result.toList
      | none => []) ++ ['\'']

def sameBranches : List Branch → List Branch → Bool
  | [], [] => true
  | b :: bs, c :: cs => b.same c && sameBranches bs cs
  | _, _ => false

def same (c d : Condition) : Bool :=
  c.lead == d.lead && sameBranches c.branches d.branches && c.fallback == d.fallback

/-- The first flaw of the branches, which are counted from `index`. -/
def checkBranches (index : Nat) : List Branch → Except Flaw Unit
  | [] => .ok ()
  | branch :: branches =>
    if Text.isBlankText branch.result then .error (.blankResult index)
    else if !branch.isMatched then .error (.mismatched index branch.operator branch.operand)
    else checkBranches (index + 1) branches

def check (c : Condition) : Except Flaw Unit :=
  if c.branches.isEmpty then .error .noBranches
  else match c.fallback with
    | none => .error .noFallback
    | some result =>
      if Text.isBlankText result then .error .blankFallback else checkBranches 0 c.branches

/-- The fallback is missing, or it or the result of a branch is blank. -/
def isIncomplete (c : Condition) : Bool :=
  (match c.fallback with
    | none => true
    | some result => Text.isBlankText result) ||
    c.branches.any fun branch ↦ Text.isBlankText branch.result

end Condition

end Phrasing
