import Phrasing.Condition.Pending
import Phrasing.Condition.Stamped

/-!
The text of a template: plain text, with conditions between quotes.

The quotes cut the text into parts that are plain and quoted by turns. Each condition takes the
plain part before it as its lead, and the last part is the tail.
-/

namespace Phrasing.Template

variable [Hasher]

/-- Reads and checks the condition between two quotes, the first of which stands at `offset`. -/
def readQuoted (lead : String) (offset : Nat) (body : List Char) : Except Failure Stamped :=
  if body.isEmpty then .error (.malformed offset .emptyCondition)
  else do (Stamped.new (← Condition.read lead (offset + 1) body)).validate

/-- Reads parts, plain and quoted by turns, the first of which starts at `offset`. -/
def readParts (offset : Nat) : List (List Char) → Except Failure (List Stamped × String)
  | [] => .ok ([], "")
  | [tail] => .ok ([], String.ofList tail)
  | [plain, _] => .error (.malformed (offset + plain.length) .unclosedQuote)
  | plain :: body :: parts => do
    let opening := offset + plain.length
    let condition ← readQuoted (String.ofList plain) opening body
    let (conditions, tail) ← readParts (opening + body.length + 2) parts
    return (condition :: conditions, tail)

def readSource (source : String) : Except Failure (List Stamped × String) :=
  readParts 0 (source.toList.splitOn '\'')

end Phrasing.Template
