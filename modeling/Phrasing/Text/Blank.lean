/-!
Blank characters: those with the Unicode property White_Space.
-/

namespace Phrasing.Text

/-- The first and last code points of the runs of blanks. -/
def blanks : List (Nat × Nat) :=
  [(0x0009, 0x000D), (0x0020, 0x0020), (0x0085, 0x0085), (0x00A0, 0x00A0), (0x1680, 0x1680),
   (0x2000, 0x200A), (0x2028, 0x2029), (0x202F, 0x202F), (0x205F, 0x205F), (0x3000, 0x3000)]

/-- A blank: skipped in a condition outside its results, and cut off the ends of those. -/
def isBlank (c : Char) : Bool :=
  blanks.any fun (first, last) ↦ first ≤ c.toNat && c.toNat ≤ last

/-- The text without the blanks at its ends. -/
def trim (s : List Char) : List Char :=
  ((s.dropWhile isBlank).reverse.dropWhile isBlank).reverse

def isBlankText (s : String) : Bool := s.toList.all isBlank

def trimmed (s : String) : String := String.ofList (trim s.toList)

theorem trim_eq_nil_iff {s : List Char} : trim s = [] ↔ s.all isBlank = true := by
  induction s with
  | nil => simp [trim]
  | cons c s ih =>
    by_cases h : isBlank c = true
    · rw [List.all_cons, h, Bool.true_and, ← ih, trim, trim, List.dropWhile_cons_of_pos h]
    · rw [trim, List.dropWhile_cons_of_neg h, List.all_cons]
      simp only [h, Bool.false_and, List.reverse_cons, List.dropWhile_append]
      split <;> simp [h]

end Phrasing.Text
