import Phrasing.Failure

/-!
Arguments, looked up by their index.
-/

namespace Phrasing

/-- The argument at an index, which has to be there and not be null. -/
def resolve (args : List Value) (index : Nat) : Except Failure Value :=
  match args[index]? with
  | none => .error (.missingArgument index args.length)
  | some value => if value.isNull then .error (.nullArgument index) else .ok value

end Phrasing
