import Phrasing.Argument
import Phrasing.Text.Digit
import Phrasing.Value.Json

/-!
Placeholders: digits between braces, which stand for an argument.

A text is a sequence of characters and placeholders, read from left to right; an argument that
takes the place of a placeholder is not read again.
-/

namespace Phrasing

inductive Piece where
  | literal (c : Char)
  | slot (digits : List Char)
deriving DecidableEq

namespace Piece

/-- The digits that a closing brace ends, and what follows the brace. -/
def splitSlot? (s : List Char) : Option (List Char × List Char) :=
  match s.takeWhile Text.isDigit, s.dropWhile Text.isDigit with
  | c :: digits, '}' :: rest => some (c :: digits, rest)
  | _, _ => none

theorem length_of_splitSlot? {s digits rest : List Char} (h : splitSlot? s = some (digits, rest)) :
    rest.length < s.length := by
  unfold splitSlot? at h
  split at h
  · next hdigits hrest =>
    have hs := congrArg List.length (List.takeWhile_append_dropWhile (p := Text.isDigit) (l := s))
    simp only [Option.some.injEq, Prod.mk.injEq] at h
    rw [← h.2]
    simp only [hdigits, hrest, List.length_append, List.length_cons] at hs
    omega
  · cases h

def ofChars (s : List Char) : List Piece :=
  match s with
  | [] => []
  | c :: s =>
    if c = '{' then
      match _h : splitSlot? s with
      | some (digits, rest) => slot digits :: ofChars rest
      | none => literal c :: ofChars s
    else literal c :: ofChars s
termination_by s.length
decreasing_by
  all_goals simp_wf
  have := length_of_splitSlot? ‹_›
  omega

/-- The index that digits stand for; one that no list can hold if they are not all ASCII digits or
make too great a number. -/
def index (digits : List Char) : Nat := (Numeral.index? digits).getD Numeral.lastIndex

def index? : Piece → Option Nat
  | literal _ => none
  | slot digits => some (index digits)

def fill (args : List Value) : Piece → Except Failure (List Char)
  | literal c => .ok [c]
  | slot digits => (resolve args (index digits)).map fun value ↦ value.display.toList

def chars : Piece → List Char
  | literal c => [c]
  | slot digits => '{' :: digits ++ ['}']

end Piece

/-- The indices of the placeholders of a text, from left to right. -/
def placeholders (text : String) : List Nat := (Piece.ofChars text.toList).filterMap Piece.index?

/-- Puts the arguments in; the leftmost placeholder that fails tells why. -/
def substitute (text : String) (args : List Value) : Except Failure String := do
  let filled ← (Piece.ofChars text.toList).mapM (Piece.fill args)
  return String.ofList filled.flatten

end Phrasing
