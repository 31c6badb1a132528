import Phrasing.Text.Blank

/-!
Trimmed texts, which trimming leaves as they are.
-/

namespace Phrasing.Text

/-- No blank stands at an end. -/
def Trimmed (s : List Char) : Prop :=
  (∀ c, s.head? = some c → isBlank c = false) ∧ ∀ c, s.getLast? = some c → isBlank c = false

variable {s : List Char}

theorem not_isBlank_of_head?_dropWhile {c : Char} (h : (s.dropWhile isBlank).head? = some c) :
    isBlank c = false := by
  have hnot := List.head?_dropWhile_not isBlank s
  rw [h] at hnot
  exact hnot

theorem dropWhile_eq_self (h : ∀ c, s.head? = some c → isBlank c = false) :
    s.dropWhile isBlank = s := by
  cases s with
  | nil => rfl
  | cons c s => rw [List.dropWhile_cons_of_neg (by simp [h c rfl])]

theorem trimmed_trim (s : List Char) : Trimmed (trim s) := by
  constructor
  · intro c hc
    have hlast : (((s.dropWhile isBlank).reverse.dropWhile isBlank)).getLast? = some c := by
      rwa [trim, List.head?_reverse] at hc
    have hcut := List.takeWhile_append_dropWhile (p := isBlank) (l := (s.dropWhile isBlank).reverse)
    have hhead := congrArg List.getLast? hcut
    rw [List.getLast?_append, hlast, Option.some_or, List.getLast?_reverse] at hhead
    exact not_isBlank_of_head?_dropWhile hhead.symm
  · intro c hc
    rw [trim, List.getLast?_reverse] at hc
    exact not_isBlank_of_head?_dropWhile hc

theorem Trimmed.trim_eq (h : Trimmed s) : trim s = s := by
  have hreverse : s.reverse.dropWhile isBlank = s.reverse := by
    refine dropWhile_eq_self fun c hc ↦ h.2 c ?_
    rwa [List.head?_reverse] at hc
  rw [trim, dropWhile_eq_self h.1, hreverse, List.reverse_reverse]

theorem isBlankText_ofList : isBlankText (String.ofList s) = true ↔ trim s = [] := by
  rw [isBlankText, String.toList_ofList, trim_eq_nil_iff]

theorem mem_of_mem_trim {c : Char} (h : c ∈ trim s) : c ∈ s := by
  rw [trim, List.mem_reverse] at h
  have h := (List.dropWhile_sublist isBlank).mem h
  rw [List.mem_reverse] at h
  exact (List.dropWhile_sublist isBlank).mem h

end Phrasing.Text
