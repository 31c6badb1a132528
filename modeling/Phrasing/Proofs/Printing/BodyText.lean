import Phrasing.Proofs.Printing.ComparisonText

/-!
Branches and a fallback that were read are derived again from the text between the quotes that they
are written as, unless they hold an infinite number.
-/

namespace Phrasing.Grammar

/-- Branches and a fallback as they are written between quotes. -/
def written (branches : List Branch) (fallback : String) : List Char :=
  branches.flatMap (fun branch ↦ branch.write ++ ['|']) ++ '*' :: ':' :: fallback.toList

variable {s : List Char} {branches branches' : List Branch} {fallback fallback' : String}
  {d : Comparison} {c : Char}

theorem eq_of_append_cons {front front' rest rest' : List Char} (h : c ∉ front) (h' : c ∉ front')
    (heq : front ++ c :: rest = front' ++ c :: rest') : front = front' ∧ rest = rest' := by
  have hhead := congrArg (fun s ↦ (s.splitOn c).head?) heq
  simp only [List.splitOn_append_cons_self_of_not_mem, h, h', not_false_eq_true, List.head?_cons] at hhead
  obtain rfl := Option.some.inj hhead
  exact ⟨rfl, (List.cons.inj (List.append_cancel_left heq)).2⟩

theorem not_isBlank_of_mem_squeeze (h : c ∈ squeeze s) : Text.isBlank c = false := by
  simpa using (List.mem_filter.1 h).2

theorem squeeze_eq_self (h : ∀ c ∈ s, Text.isBlank c = false) : squeeze s = s := by
  refine List.filter_eq_self.2 fun c hc ↦ ?_
  rw [h c hc]
  rfl

theorem ComparisonText.squeeze_write (h : ComparisonText (squeeze s) d) :
    squeeze d.write = d.write := by
  refine squeeze_eq_self fun c hc ↦ ?_
  rcases h.mem_write hc with hc | hprinted
  · exact not_isBlank_of_mem_squeeze hc
  · exact (not_isBlank_of_isPrinted hprinted).1

theorem ComparisonText.colon_not_mem_write (h : ComparisonText s d) : ':' ∉ d.write := by
  intro hmem
  rcases h.mem_write hmem with hmem | hprinted
  · exact h.colon_not_mem hmem
  · exact (not_isBlank_of_isPrinted hprinted).2.1 rfl

theorem ResultText.trim (h : ResultText s) : ResultText (Text.trim s) := by
  refine ⟨fun hmem ↦ h.1 (Text.mem_of_mem_trim hmem), ?_⟩
  rw [(Text.trimmed_trim s).trim_eq]
  exact h.2

theorem written_cons {result : List Char} : written (⟨d, String.ofList result⟩ :: branches) fallback =
    d.write ++ ':' :: (result ++ '|' :: written branches fallback) := by
  simp [written, Branch.write]

/-- Finite branches and their fallback are derived again from what is written of them. -/
theorem Body.written (h : Body s branches fallback)
    (hfinite : ∀ b ∈ branches, b.operand.IsFinite) :
    Body (written branches fallback) branches fallback := by
  induction h with
  | @fallback mark result hmark hresult =>
    have hbody : Body (['*'] ++ ':' :: Text.trim result) [] _ := .fallback (by decide) hresult.trim
    rw [(Text.trimmed_trim result).trim_eq] at hbody
    rw [Grammar.written, String.toList_ofList]
    exact hbody
  | @branch head result rest d later fallback hhead hresult hrest ih =>
    obtain ⟨hfirst, hlater⟩ := List.forall_mem_cons.1 hfinite
    have hd : ComparisonText (squeeze d.write) d := by
      rw [hhead.squeeze_write]
      exact hhead.write hfirst
    have hbody := Body.branch hd hresult.trim (ih hlater)
    rw [(Text.trimmed_trim result).trim_eq] at hbody
    rw [written_cons]
    exact hbody

/-- If what is written of branches is read as equal branches, they are finite. -/
theorem Body.isFinite_of_same (h : Body s branches fallback)
    (h' : Body (Grammar.written branches fallback) branches' fallback')
    (hsame : Condition.sameBranches branches branches' = true) :
    ∀ b ∈ branches, b.operand.IsFinite := by
  induction h generalizing branches' fallback' with
  | fallback => simp
  | @branch head result rest d later fallback hhead hresult hrest ih =>
    rw [written_cons] at h'
    generalize htext : d.write ++ ':' :: (Text.trim result ++ '|' :: _) = text at h'
    cases h' with
    | fallback => cases hsame
    | @branch head' result' rest' d' later' _ hhead' hresult' hrest' =>
      rw [Condition.sameBranches, Bool.and_eq_true, Branch.same, Bool.and_eq_true] at hsame
      have hcolon' : ':' ∉ head' := fun hmem ↦ hhead'.colon_not_mem (colon_mem_squeeze.2 hmem)
      -- the colon and the separator that are found first are those that were written
      obtain ⟨rfl, hafter⟩ := eq_of_append_cons hhead.colon_not_mem_write hcolon' htext
      obtain ⟨-, rfl⟩ := eq_of_append_cons hresult.trim.1 hresult'.1 hafter
      rw [hhead.squeeze_write] at hhead'
      refine List.forall_mem_cons.2 ⟨hhead.isFinite_of_same hhead' hsame.1.1, ?_⟩
      exact ih hrest' hsame.2

theorem Body.same_self (h : Body s branches fallback) :
    Condition.sameBranches branches branches = true := by
  induction h with
  | fallback => rfl
  | branch hhead _ _ ih => simp [Condition.sameBranches, Branch.same, hhead.same_self, ih]

theorem Body.mem_written (h : Body s branches fallback) (hc : c ∈ Grammar.written branches fallback) :
    c ∈ s ∨ isPrinted c := by
  induction h with
  | @fallback mark result hmark hresult =>
    simp only [Grammar.written, List.flatMap_nil, List.nil_append, List.mem_cons,
      String.toList_ofList] at hc
    rcases hc with rfl | rfl | hc
    · have hmem : '*' ∈ squeeze mark := by simp [hmark]
      exact .inl (List.mem_append_left _ (List.mem_filter.1 hmem).1)
    · exact .inl (by simp)
    · exact .inl (by simp [Text.mem_of_mem_trim hc])
  | @branch head result rest d later fallback hhead hresult hrest ih =>
    rw [written_cons] at hc
    simp only [List.mem_append, List.mem_cons] at hc ⊢
    rcases hc with hc | rfl | hc | rfl | hc
    · rcases hhead.mem_write hc with hc | hprinted
      · exact .inl (.inl (List.mem_filter.1 hc).1)
      · exact .inr hprinted
    · exact .inl (.inr (.inl rfl))
    · exact .inl (.inr (.inr (.inl (Text.mem_of_mem_trim hc))))
    · exact .inl (.inr (.inr (.inr (.inl rfl))))
    · rcases ih hc with hc | hprinted
      · exact .inl (.inr (.inr (.inr (.inr hc))))
      · exact .inr hprinted

theorem Body.quote_not_mem_written (h : Body s branches fallback) (hs : '\'' ∉ s) :
    '\'' ∉ Grammar.written branches fallback := by
  intro hmem
  rcases h.mem_written hmem with hmem | hprinted
  · exact hs hmem
  · exact (not_isBlank_of_isPrinted hprinted).2.2 rfl

end Phrasing.Grammar
