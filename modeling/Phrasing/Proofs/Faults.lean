import Phrasing.Proofs.Check
import Phrasing.Proofs.Concatenation
import Phrasing.Proofs.Lookup

/-!
Faults of a template show when it is compiled, faults of the arguments when it is rendered, and
neither at the other time.
-/

namespace Phrasing

open Outcome

/-- Whether the arguments are to blame: one is missing or null, or cannot be compared as asked. -/
def Failure.isArgumentFault : Failure → Bool
  | missingArgument .. | nullArgument _ | mismatch .. | rangeMismatch _ | unsupported ..
  | emptyRange .. => true
  | malformed .. | unsound _ | unknownTemplate _ => false

variable {options : Options} {args : List Value} {failure : Failure}

theorem Failure.isTemplateFault_eq_false (h : failure.isArgumentFault = true) :
    failure.isTemplateFault = false := by
  cases failure <;> first | rfl | cases h

theorem Failure.IsLookup.isArgumentFault (h : failure.IsLookup) :
    failure.isArgumentFault = true := by
  cases failure <;> first | rfl | cases h

/-- A comparison whose operator fits its operand never blames the condition. -/
theorem Comparison.Fails.isArgumentFault {c : Comparison} (hmatched : c.isMatched = true)
    (h : c.Fails options args failure) : failure.isArgumentFault = true := by
  cases h with
  | lookup hi hresolve => exact (resolve_isLookup hresolve).isArgumentFault
  | unfit flaw hunfit => cases hunfit.symm.trans hmatched
  | emptyRange | rangeMismatch | mismatch | unsupported => rfl

variable [Hasher]

namespace Source

open Grammar

variable {parts : List (List Char)} {conditions : List Stamped} {source tail : String}
  {t : Template}

theorem isArgumentFault_of_render (h : compile source = .ok t)
    (hrender : t.render options args = .error failure) : failure.isArgumentFault = true := by
  have hsound : ∀ s ∈ t.conditions, s.condition.check = .ok () :=
    fun s hs ↦ ((compile_iff.1 h).1.sound s hs).2
  rcases exists_of_render hrender with ⟨s, hs, flaw, hflaw, -⟩ | ⟨s, hs, b, hb, hfails⟩ | ⟨i, hresolve⟩
  · cases (hsound s hs).symm.trans hflaw
  · have hbranches := (Condition.check_eq_ok_iff.1 (hsound s hs)).2.2
    exact hfails.isArgumentFault (hbranches b hb).2
  · exact (resolve_isLookup hresolve).isArgumentFault

/-- A quoted part is refused when it is empty, when it cannot be read, or when it has a fallback and
nothing else. -/
theorem fault_of_readQuoted {lead : String} {offset : Nat} {body : List Char}
    (h : Template.readQuoted lead offset body = .error failure) :
    body = [] ∧ failure = .malformed offset .emptyCondition ∨
      Condition.read lead (offset + 1) body = .error failure ∨
      failure = .unsound .noBranches ∧ ∃ fallback,
        Condition.read lead (offset + 1) body = .ok ⟨lead, [], some fallback⟩ := by
  unfold Template.readQuoted at h
  split at h
  · next hempty =>
    cases h
    exact .inl ⟨by simpa using hempty, rfl⟩
  · refine .inr ?_
    rcases bind_eq_error_iff.1 h with hread | ⟨⟨lead', branches, fallback?⟩, hread, hvalid⟩
    · exact .inl hread
    · obtain ⟨rfl, fallback, rfl, hbody⟩ := read_iff_body.1 hread
      rw [validate_new] at hvalid
      cases branches with
      | nil =>
        obtain rfl := Except.error.inj hvalid
        exact .inr ⟨rfl, fallback, hread⟩
      | cons b branches =>
        rw [(hbody.check_eq_ok_iff _).2 (by simp)] at hvalid
        cases hvalid

/-- After a text that compiles stands a quoted part that is read as a fallback and no branch. -/
def HasLoneFallback (source : String) : Prop :=
  ∃ before body after t fallback, source.toList = before ++ '\'' :: (body ++ '\'' :: after) ∧
    '\'' ∉ body ∧ compile (String.ofList before) = .ok t ∧
    Condition.read t.tail (before.length + 1) body = .ok ⟨t.tail, [], some fallback⟩

theorem fault_of_compile (h : compile source = .error failure) :
    failure.isTemplateFault = true ∧ (failure.offset? = none →
      failure = .unsound .noBranches ∧ HasLoneFallback source) := by
  obtain ⟨before, rest, conditions, tail, hsource, hbefore, hfailed⟩ :=
    exists_of_readText_error (compile_eq_error_iff.1 h)
  rcases hfailed with ⟨-, rfl⟩ | ⟨body, after, rfl, hbody, hquoted⟩
  · exact ⟨rfl, fun hnone ↦ by cases hnone⟩
  · rcases fault_of_readQuoted hquoted with ⟨-, rfl⟩ | hread | ⟨rfl, fallback, hread⟩
    · exact ⟨rfl, fun hnone ↦ by cases hnone⟩
    · obtain ⟨offset, defect, rfl⟩ := Condition.malformed_of_read hread
      exact ⟨rfl, fun hnone ↦ by cases hnone⟩
    · rw [Nat.zero_add] at hread
      exact ⟨rfl, fun _ ↦ ⟨rfl, before, body, after, _, fallback, hsource, hbody,
        compile_of_readText hbefore, hread⟩⟩

/-- A source is refused only for a fault of its own, which has an offset unless a condition has a
fallback and nothing else. The conditions of a template are sound and complete, and a rendering is
refused only for a fault of the arguments. -/
theorem faults_apart (source : String) :
    (∀ failure, compile source = .error failure → failure.isTemplateFault = true ∧
      (failure.offset? = none → failure = .unsound .noBranches ∧ HasLoneFallback source)) ∧
    (∀ t, compile source = .ok t →
      (∀ s ∈ t.conditions, s.isValidated = true ∧ s.condition.branches ≠ [] ∧
        ∃ fallback, s.condition.fallback = some fallback) ∧
      ∀ options args failure, t.render options args = .error failure →
        failure.isArgumentFault = true ∧ failure.isTemplateFault = false) ∧
    ∀ args, (∃ failure, format source args = .error failure ∧ failure.isTemplateFault = true) ↔
      ∃ failure, compile source = .error failure := by
  refine ⟨fun failure ↦ fault_of_compile, fun t ht ↦ ⟨fun s hs ↦ ?_, ?_⟩, fun args ↦ ⟨?_, ?_⟩⟩
  · obtain ⟨hstamp, hcheck⟩ := (compile_iff.1 ht).1.sound s hs
    obtain ⟨hne, ⟨fallback, hfallback, -⟩, -⟩ := Condition.check_eq_ok_iff.1 hcheck
    refine ⟨?_, hne, fallback, hfallback⟩
    rw [hstamp]
    exact isValidated_stamped hcheck
  · intro options args failure hrender
    have hfault := isArgumentFault_of_render ht hrender
    exact ⟨hfault, Failure.isTemplateFault_eq_false hfault⟩
  · intro h
    obtain ⟨failure, hformat, hfault⟩ := h
    rcases bind_eq_error_iff.1 hformat with hcompile | ⟨t, ht, hformat⟩
    · exact ⟨failure, hcompile⟩
    · rcases bind_eq_error_iff.1 hformat with hrender | ⟨r, -, hformat⟩
      · rw [Failure.isTemplateFault_eq_false (isArgumentFault_of_render ht hrender)] at hfault
        cases hfault
      · cases hformat
  · intro h
    obtain ⟨failure, hcompile⟩ := h
    exact ⟨failure, bind_eq_error_iff.2 (.inl hcompile), (fault_of_compile hcompile).1⟩

omit [Hasher] in
theorem faults_apart_range :
    (∃ t, @compile Digest.hasher "'{0}~3..1:none|*:some'" = .ok t ∧
      (∀ s ∈ t.conditions, @Stamped.isValidated Digest.hasher s = true ∧
        s.condition.branches ≠ [] ∧ ∃ fallback, s.condition.fallback = some fallback) ∧
      ∃ failure, @Template.render Digest.hasher .standard [.integer 2] t = .error failure ∧
        failure.isArgumentFault = true ∧ failure.isTemplateFault = false) ∧
    ∃ failure, @compile Digest.hasher "{0}'*:some'" = .error failure ∧
      failure.isTemplateFault = true ∧ failure.offset? = none ∧ failure = .unsound .noBranches ∧
      @HasLoneFallback Digest.hasher "{0}'*:some'" := by
  let _ := Digest.hasher
  have hrange : (compile "'{0}~3..1:none|*:some'").toOption.any fun t ↦
      (error? (t.render .standard [.integer 2])).isSome := by decide +kernel
  have halone : error? (compile "{0}'*:some'") = some (.unsound .noBranches) := by decide +kernel
  constructor
  · obtain ⟨t, ht, hfailed⟩ := (Option.any_eq_true _ _).1 hrange
    obtain ⟨failure, hfailure⟩ := Option.isSome_iff_exists.1 hfailed
    have ht := toOption_eq_some_iff.1 ht
    have hfailure := error?_eq_some_iff.1 hfailure
    obtain ⟨hsound, hrender⟩ := (faults_apart "'{0}~3..1:none|*:some'").2.1 t ht
    exact ⟨t, ht, hsound, failure, hfailure, hrender _ _ _ hfailure⟩
  · have halone := error?_eq_some_iff.1 halone
    obtain ⟨hfault, hno⟩ := (faults_apart "{0}'*:some'").1 _ halone
    exact ⟨_, halone, hfault, rfl, hno rfl⟩

end Source

end Phrasing
