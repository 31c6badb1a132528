import Phrasing.Proofs.Comparison
import Phrasing.Proofs.Indices
import Phrasing.Proofs.Placeholder
import Phrasing.Proofs.Rendering

/-!
Which arguments a rendering looks up, and when the arguments a template asks for are enough.
-/

namespace Phrasing

open Outcome

/-- An argument was looked up that is missing or null. -/
def Failure.IsLookup : Failure → Prop
  | .missingArgument .. | .nullArgument _ => True
  | _ => False

variable {options : Options} {args : List Value} {failure : Failure} {i : Nat}

theorem resolve_isLookup (h : resolve args i = .error failure) : failure.IsLookup := by
  cases resolve_eq_error_iff.1 h with
  | missing | null => trivial

theorem exists_resolve (hi : i < args.length) (hnull : ∀ value ∈ args, value.isNull = false) :
    ∃ value, resolve args i = .ok value :=
  exists_resolve_iff.2 ⟨args[i], List.getElem?_eq_getElem hi, hnull _ (List.getElem_mem hi)⟩

theorem length_le_of_resolve (hnull : ∀ value ∈ args, value.isNull = false)
    (h : resolve args i = .error failure) : args.length ≤ i := by
  apply Nat.le_of_not_lt
  intro hi
  obtain ⟨value, hvalue⟩ := exists_resolve hi hnull
  cases hvalue.symm.trans h

theorem exists_substitute_error {text : String} (hi : i ∈ placeholders text)
    (hlen : args.length ≤ i) :
    ∃ failure, substitute text args = .error failure ∧ failure.IsLookup := by
  cases h : substitute text args with
  | ok output =>
    obtain ⟨value, hvalue⟩ := resolve_of_substitute_eq_ok h hi
    cases hvalue.symm.trans (resolve_eq_error_iff.2 (.missing hlen))
  | error failure =>
    obtain ⟨j, -, hresolve⟩ := exists_of_substitute_eq_error h
    exact ⟨failure, rfl, resolve_isLookup hresolve⟩

/-- The indices a comparison looks up are those that it names. -/
theorem Comparison.Fails.exists_lookup {c : Comparison} (h : c.Fails options args failure)
    (hlookup : failure.IsLookup) :
    ∃ i ∈ c.target :: c.operand.pointer?.toList, resolve args i = .error failure := by
  cases h with
  | lookup hi hresolve => exact ⟨_, hi, hresolve⟩
  | unfit | emptyRange | rangeMismatch | mismatch | unsupported => cases hlookup

section

variable [Hasher]

theorem Stamped.exists_lookup_of_select {s : Stamped} (h : s.select options args = .error failure)
    (hlookup : failure.IsLookup) : ∃ branch ∈ s.condition.branches,
      ∃ i ∈ branch.compared, resolve args i = .error failure := by
  rcases exists_of_select h with ⟨flaw, -, rfl⟩ | ⟨b, hb, hfailed⟩
  · cases hlookup
  · exact ⟨b, hb, (Comparison.fails_of_evaluate hfailed).exists_lookup hlookup⟩

/-- A rendering fails because a condition has a flaw, a comparison fails, or a placeholder does. -/
theorem Source.exists_of_render {t : Template} (h : t.render options args = .error failure) :
    (∃ s ∈ t.conditions, ∃ flaw, s.condition.check = .error flaw ∧ failure = .unsound flaw) ∨
      (∃ s ∈ t.conditions, ∃ b ∈ s.condition.branches,
        b.toComparison.Fails options args failure) ∨
      ∃ i, resolve args i = .error failure := by
  rcases render_eq_error_iff.1 h with hselect | ⟨selected, -, hsubstitute⟩
  · obtain ⟨s, hs, hselect⟩ := exists_of_mapM_eq_error hselect
    rcases Stamped.exists_of_select hselect with hflaw | ⟨b, hb, hfailed⟩
    · exact .inl ⟨s, hs, hflaw⟩
    · exact .inr (.inl ⟨s, hs, b, hb, Comparison.fails_of_evaluate hfailed⟩)
  · obtain ⟨i, -, hresolve⟩ := exists_of_substitute_eq_error hsubstitute
    exact .inr (.inr ⟨i, hresolve⟩)

end

namespace Condition

/-- The texts of a condition, those that a rendering puts one after the other. -/
def texts (c : Condition) : List String :=
  c.lead :: c.branches.map Branch.result ++ c.fallback.toList

variable {c : Condition} {selection : Selection} {text : String}

theorem mem_texts_of_result? (h : c.result? selection = some text) : text ∈ c.texts := by
  cases selection with
  | branch k =>
    obtain ⟨branch, hbranch, rfl⟩ := Option.map_eq_some_iff.1 h
    have hmem := List.mem_of_getElem? hbranch
    simp [texts, List.mem_map_of_mem hmem]
  | fallback =>
    have hfallback : c.fallback = some text := h
    simp [texts, hfallback]

theorem mem_indices_of_compared {branch : Branch} (hbranch : branch ∈ c.branches)
    (hi : i ∈ branch.compared) : i ∈ c.indices := by
  refine List.mem_append_left _ (List.mem_append_right _ ?_)
  exact List.mem_flatMap.2 ⟨branch, hbranch, List.mem_append_left _ hi⟩

theorem mem_indices_of_text (htext : text ∈ c.texts) (hi : i ∈ placeholders text) :
    i ∈ c.indices := by
  rcases List.mem_append.1 htext with htext | htext
  · rcases List.mem_cons.1 htext with rfl | htext
    · exact List.mem_append_left _ (List.mem_append_left _ hi)
    · obtain ⟨branch, hbranch, rfl⟩ := List.mem_map.1 htext
      refine List.mem_append_left _ (List.mem_append_right _ ?_)
      exact List.mem_flatMap.2 ⟨branch, hbranch, List.mem_append_right _ hi⟩
  · exact List.mem_append_right _ (List.mem_flatMap.2 ⟨text, htext, hi⟩)

end Condition

namespace Template

open Source

/-- There are as many arguments as the template asks for, and none of them is null. No memory holds
`lastIndex` arguments. -/
structure Sufficient (t : Template) (args : List Value) : Prop where
  required : t.requiredArgs ≤ args.length
  holdable : args.length < Numeral.lastIndex
  nonnull : ∀ value ∈ args, value.isNull = false

/-- No text of a condition ends inside what could become a placeholder. -/
def IsClosed (conditions : List Stamped) : Prop :=
  ∀ s ∈ conditions, ∀ text ∈ s.condition.texts, ¬Piece.IsOpen text.toList

variable {t : Template} {s : Stamped} {conditions : List Stamped} {selected : List Selection}
  {source tail : String}

theorem mem_indicesOf : i ∈ indicesOf conditions tail ↔
    (∃ s ∈ conditions, i ∈ s.condition.indices) ∨ i ∈ placeholders tail := by
  rw [indicesOf, mem_ascending, List.mem_append, List.mem_flatMap]

theorem placeholders_output {rest : String} {selection : Selection}
    (hclosed : ∀ text ∈ s.condition.texts, ¬Piece.IsOpen text.toList)
    (hi : i ∈ placeholders (s.condition.output selection ++ rest)) :
    i ∈ s.condition.indices ∨ i ∈ placeholders rest := by
  have hlead : s.condition.lead ∈ s.condition.texts := by simp [Condition.texts]
  rw [Condition.output, String.append_assoc, Piece.placeholders_append (hclosed _ hlead)] at hi
  rcases List.mem_append.1 hi with hi | hi
  · exact .inl (Condition.mem_indices_of_text hlead hi)
  · cases hresult : s.condition.result? selection with
    | none =>
      rw [hresult] at hi
      exact .inr (by simpa using hi)
    | some result =>
      have hmem := Condition.mem_texts_of_result? hresult
      rw [hresult, Option.getD_some, Piece.placeholders_append (hclosed _ hmem)] at hi
      rcases List.mem_append.1 hi with hi | hi
      · exact .inl (Condition.mem_indices_of_text hmem hi)
      · exact .inr hi

theorem mem_indicesOf_of_outputs (hclosed : IsClosed conditions)
    (hi : i ∈ placeholders (outputs conditions selected ++ tail)) :
    i ∈ indicesOf conditions tail := by
  rw [mem_indicesOf]
  induction conditions generalizing selected with
  | nil => exact .inr (by simpa [outputs] using hi)
  | cons s conditions ih =>
    cases selected with
    | nil => exact .inr (by simpa [outputs] using hi)
    | cons selection selected =>
      rw [outputs, String.append_assoc] at hi
      rcases placeholders_output (hclosed s (by simp)) hi with hi | hi
      · exact .inl ⟨s, by simp, hi⟩
      · rcases ih (fun s' hs' ↦ hclosed s' (by simp [hs'])) hi with ⟨s', hmem, hs'⟩ | hi
        · exact .inl ⟨s', by simp [hmem], hs'⟩
        · exact .inr hi

theorem Sufficient.exists_resolve (hargs : t.Sufficient args)
    (hindices : t.indices = indicesOf t.conditions t.tail) (hi : i ∈ t.indices) :
    ∃ value, resolve args i = .ok value := by
  have hsorted : t.indices.Pairwise (· ≤ ·) := by
    rw [hindices]
    exact pairwise_ascending _
  have hlt := lt_of_mem_indices hsorted hi hargs.required hargs.holdable
  exact Phrasing.exists_resolve hlt hargs.nonnull

variable [Hasher]

theorem Sufficient.not_isLookup (hargs : t.Sufficient args)
    (hindices : t.indices = indicesOf t.conditions t.tail)
    (h : selectAll options args t.conditions = .error failure) : ¬failure.IsLookup := by
  intro hlookup
  obtain ⟨s, hs, hselect⟩ := exists_of_mapM_eq_error h
  obtain ⟨branch, hbranch, i, hi, hresolve⟩ := Stamped.exists_lookup_of_select hselect hlookup
  have hmem : i ∈ t.indices := by
    rw [hindices, mem_indicesOf]
    exact .inl ⟨s, hs, Condition.mem_indices_of_compared hbranch hi⟩
  obtain ⟨value, hvalue⟩ := hargs.exists_resolve hindices hmem
  cases hvalue.symm.trans hresolve

/-- With enough arguments a rendering looks up a missing one just when texts put one after the
other make a placeholder that is in none of them. Closed texts never do. -/
theorem render_lookup_failure_iff (h : compile source = .ok t) (hargs : t.Sufficient args)
    (options : Options) :
    ((∃ failure, t.render options args = .error failure ∧ failure.IsLookup) ↔
      ∃ selected, selectAll options args t.conditions = .ok selected ∧
        ∃ i ∈ placeholders (outputs t.conditions selected ++ t.tail),
          i ∉ t.indices ∧ args.length ≤ i) ∧
    (IsClosed t.conditions → ∀ failure, t.render options args = .error failure →
      ¬failure.IsLookup) := by
  have hindices : t.indices = indicesOf t.conditions t.tail := by rw [(compile_iff.1 h).2]
  have hiff : (∃ failure, t.render options args = .error failure ∧ failure.IsLookup) ↔
      ∃ selected, selectAll options args t.conditions = .ok selected ∧
        ∃ i ∈ placeholders (outputs t.conditions selected ++ t.tail),
          i ∉ t.indices ∧ args.length ≤ i := by
    constructor
    · intro h
      obtain ⟨failure, hrender, hlookup⟩ := h
      rcases render_eq_error_iff.1 hrender with hselect | ⟨selected, hselect, hsubstitute⟩
      · exact absurd hlookup (hargs.not_isLookup hindices hselect)
      · obtain ⟨i, hi, hresolve⟩ := exists_of_substitute_eq_error hsubstitute
        refine ⟨selected, hselect, i, hi, ?_, length_le_of_resolve hargs.nonnull hresolve⟩
        intro hmem
        obtain ⟨value, hvalue⟩ := hargs.exists_resolve hindices hmem
        cases hvalue.symm.trans hresolve
    · intro h
      obtain ⟨selected, hselect, i, hi, -, hlen⟩ := h
      obtain ⟨failure, hsubstitute, hlookup⟩ := exists_substitute_error hi hlen
      exact ⟨failure, render_eq_error_iff.2 (.inr ⟨selected, hselect, hsubstitute⟩), hlookup⟩
  refine ⟨hiff, ?_⟩
  intro hclosed failure hrender hlookup
  obtain ⟨selected, -, i, hi, hmem, -⟩ := hiff.1 ⟨failure, hrender, hlookup⟩
  rw [hindices] at hmem
  exact hmem (mem_indicesOf_of_outputs hclosed hi)

omit [Hasher] in
theorem render_lookup_failure_iff_junction :
    (∃ t, @compile Digest.hasher "\x7b'{0}=1:5|*:6'\x7d" = .ok t ∧ t.Sufficient [.integer 1] ∧
      ∃ failure, @render Digest.hasher .standard [.integer 1] t = .error failure ∧
        failure.IsLookup) ∧
    ∃ t, @compile Digest.hasher "one '{0}=1:item|*:of many'." = .ok t ∧
      t.Sufficient [.integer 1] ∧ IsClosed t.conditions ∧
      ∀ failure, @render Digest.hasher .standard [.integer 1] t = .error failure →
        ¬failure.IsLookup := by
  let _ := Digest.hasher
  have hopen : (compile "\x7b'{0}=1:5|*:6'\x7d").toOption.any (fun t ↦ t.requiredArgs = 1 ∧
      (selectAll .standard [.integer 1] t.conditions).toOption = some [.branch 0] ∧
      5 ∈ placeholders (outputs t.conditions [.branch 0] ++ t.tail) ∧ 5 ∉ t.indices) := by
    decide +kernel
  have hclosed : (compile "one '{0}=1:item|*:of many'.").toOption.any (fun t ↦
      t.requiredArgs = 1 ∧ ∀ s ∈ t.conditions, ∀ text ∈ s.condition.texts,
        text.toList.getLast?.any fun c ↦ c ≠ '\x7b' ∧ Text.isDigit c = false) := by
    decide +kernel
  have hsufficient : ∀ t : Template, t.requiredArgs = 1 → t.Sufficient [.integer 1] :=
    fun t ht ↦ ⟨Nat.le_of_eq ht, by decide, by decide⟩
  constructor
  · obtain ⟨t, ht, hfacts⟩ := (Option.any_eq_true _ _).1 hopen
    obtain ⟨hrequired, hselected, hmem, hnot⟩ := of_decide_eq_true hfacts
    have h := toOption_eq_some_iff.1 ht
    have hselect := toOption_eq_some_iff.1 hselected
    have hargs := hsufficient t hrequired
    refine ⟨t, h, hargs, ?_⟩
    exact (render_lookup_failure_iff h hargs .standard).1.2 ⟨_, hselect, 5, hmem, hnot, by decide⟩
  · obtain ⟨t, ht, hfacts⟩ := (Option.any_eq_true _ _).1 hclosed
    obtain ⟨hrequired, htexts⟩ := of_decide_eq_true hfacts
    have h := toOption_eq_some_iff.1 ht
    have hargs := hsufficient t hrequired
    have hclosed : IsClosed t.conditions := by
      intro s hs text htext
      obtain ⟨c, hc, hlast⟩ := (Option.any_eq_true _ _).1 (htexts s hs text htext)
      obtain ⟨hbrace, hdigit⟩ := of_decide_eq_true hlast
      exact Piece.not_isOpen_of_getLast? hc hbrace hdigit
    exact ⟨t, h, hargs, hclosed, (render_lookup_failure_iff h hargs .standard).2 hclosed⟩

end Template

end Phrasing
