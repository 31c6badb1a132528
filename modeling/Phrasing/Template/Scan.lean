import Phrasing.Condition.Draft
import Phrasing.Template.Source

/-!
The text of a template, read in one scan from the left: the place of the scan, the plain text since
the last condition, and for each condition how much of the text it takes up.
-/

namespace Phrasing.Template

/-- A condition that was read, and the number of its characters, both quotes included. -/
structure Scanned where
  condition : Condition
  consumed : Nat
  consumed_pos : 0 < consumed

/-- Reads the condition whose first quote stands at `opening`. -/
def scanQuoted (text : List Char) (opening : Nat) (lead : String) : Except Failure Scanned :=
  let start := opening + 1
  match (text.drop start).findIdx? (· == '\'') with
  | none => .error (.malformed opening .unclosedQuote)
  | some distance =>
    let closing := start + distance
    if closing = start then .error (.malformed opening .emptyCondition)
    else do
      let condition ← Draft.read lead start ((text.drop start).take (closing - start))
      return ⟨condition, closing - opening + 1, Nat.succ_pos _⟩

variable [Hasher]

/-- Scans a text from a place on, where `plain` is the text since the last of the conditions. -/
def scanFrom (text : List Char) (pos : Nat) (plain : String) (conditions : List Stamped) :
    Except Failure (List Stamped × String) :=
  if h : pos < text.length then
    if text[pos] = '\'' then do
      let scanned ← scanQuoted text pos plain
      let condition ← (Stamped.new scanned.condition).validate
      scanFrom text (pos + scanned.consumed) "" (conditions ++ [condition])
    else scanFrom text (pos + 1) (plain.push text[pos]) conditions
  else .ok (conditions, plain)
termination_by text.length - pos
decreasing_by
  · have := scanned.consumed_pos
    omega
  · omega

def scan (source : String) : Except Failure (List Stamped × String) :=
  scanFrom source.toList 0 "" []

end Phrasing.Template
