import Phrasing.Proofs.Draft.Simulation
import Phrasing.Proofs.Faults
import Phrasing.Proofs.Grammar.Blame

/-!
The slots of a reader always fit together, so none of the failures that guard against slots that
do not can show when a template is compiled.
-/

namespace Phrasing.Draft

open Grammar Outcome

/-- Slots that fit the state of the reader, and each other. -/
structure Consistent (d : Draft) : Prop where
  digits : ∀ digits, d.slots.digits = some digits → d.state = .target ∧ IsDigits digits
  span : ∀ span, d.slots.span = some span → d.state = .comparison ∧
    d.slots.operator = some .range ∧ IsDigits span.low ∧ IsDigits span.high ∧
      (span.low = "" → span.phase = .low)
  operandText : d.slots.operandText ≠ "" → ∃ o, d.slots.operator = some o ∧ o ≠ .range
  plain : IsPlain d.slots.operandText
  separator : d.state = .separator → d.slots.isFallback = true
  result : d.state = .result → d.slots.isFallback = false → ∃ target o x,
    d.slots.target = some target ∧ d.slots.operator = some o ∧ d.slots.operand = some x ∧
      (x.isRange = true ↔ o = .range)
  complete : ∀ b ∈ d.condition.branches, Complete b

/-- The failures of slots that do not fit together. -/
inductive Guard : Failure → Prop
  | incomplete : Guard (.unsound .incomplete)
  | mismatched {index : Nat} {o : Operator} {x : Operand} : Guard (.unsound (.mismatched index o x))
  | noRange {offset : Nat} : Guard (.malformed offset (.badRange .noRange))
  | badLow {offset : Nat} : Guard (.malformed offset (.badRange .badLow))
  | badHigh {offset : Nat} : Guard (.malformed offset (.badRange .badHigh))

variable {stage : Stage} {state : State} {slots : Slots} {lead : String} {p : Pending} {d : Draft}
  {offset : Nat} {c : Char} {failure : Failure} {body : List Char}

/-! ## What is filled fits together -/

theorem Filled.digits {digits : String} (h : Filled stage state slots)
    (hdigits : slots.digits = some digits) : state = .target ∧ IsDigits digits := by
  cases h with
  | pointer h =>
    cases hdigits
    exact ⟨rfl, h⟩
  | _ => cases hdigits

theorem Filled.span {span : Span} (h : Filled stage state slots) (hspan : slots.span = some span) :
    state = .comparison ∧ slots.operator = some .range ∧ IsDigits span.low ∧ IsDigits span.high ∧
      (span.low = "" → span.phase = .low) := by
  cases h with
  | rangeLow hlow =>
    cases hspan
    exact ⟨rfl, rfl, hlow, isDigits_empty, fun _ ↦ rfl⟩
  | rangeDot hlow hne =>
    cases hspan
    exact ⟨rfl, rfl, hlow, isDigits_empty, fun heq ↦ absurd heq hne⟩
  | rangeHigh hlow hne hhigh =>
    cases hspan
    exact ⟨rfl, rfl, hlow, hhigh, fun heq ↦ absurd heq hne⟩
  | _ => cases hspan

theorem Filled.operandText (h : Filled stage state slots) :
    IsPlain slots.operandText ∧
      (slots.operandText ≠ "" → ∃ o, slots.operator = some o ∧ o ≠ .range) := by
  cases h with
  | operand ho hne htext => exact ⟨htext, fun _ ↦ ⟨_, rfl, ho⟩⟩
  | result hmatched hoperand hplain => exact ⟨hplain, fun h ↦ ⟨_, rfl, hoperand h⟩⟩
  | _ => exact ⟨isPlain_empty, fun h ↦ absurd rfl h⟩

theorem Filled.isFallback (h : Filled stage .separator slots) : slots.isFallback = true := by
  cases h
  rfl

theorem Filled.comparison (h : Filled stage .result slots) (hfallback : slots.isFallback = false) :
    ∃ target o x, slots.target = some target ∧ slots.operator = some o ∧ slots.operand = some x ∧
      (x.isRange = true ↔ o = .range) := by
  cases h with
  | fallback => cases hfallback
  | @result comparison _ _ _ _ hmatched =>
    refine ⟨_, _, _, rfl, rfl, rfl, ?_⟩
    have hrange : comparison.operator.isRange = comparison.operand.isRange := beq_iff_eq.1 hmatched
    rw [← hrange, Operator.isRange, beq_iff_eq]

theorem Represents.consistent (h : Represents lead p d) : d.Consistent where
  digits _ := h.filled.digits
  span _ := h.filled.span
  operandText := h.filled.operandText.2
  plain := h.filled.operandText.1
  separator hstate := by
    have hfilled := h.filled
    rw [hstate] at hfilled
    exact hfilled.isFallback
  result hstate := by
    have hfilled := h.filled
    rw [hstate] at hfilled
    exact hfilled.comparison
  complete := by
    rw [h.condition]
    exact h.complete

theorem consistent_of_feedAll (h : (start lead).feedAll offset body = .ok d) : d.Consistent := by
  obtain ⟨p, -, hrepresents⟩ := (alike_feedAll (represents_start lead) offset body).exists_of_ok h
  exact hrepresents.consistent

/-! ## What fits together is never guarded against -/

theorem not_guard_of_feedTarget (h : d.feedTarget offset c = .error failure) : ¬Guard failure := by
  unfold feedTarget feedPointer at h
  dsimp only at h
  repeat' split at h
  all_goals cases h
  all_goals nofun

theorem not_guard_of_feedSeparator (h : d.feedSeparator offset c = .error failure) :
    ¬Guard failure := by
  unfold feedSeparator at h
  split at h <;> cases h
  nofun

theorem not_guard_of_feedOperand (h : d.feedOperand offset c = .error failure) :
    ¬Guard failure := by
  unfold feedOperand at h
  dsimp only at h
  split at h
  · cases h
  · split at h
    · cases h
      nofun
    · rcases bind_eq_error_iff.1 h with hread | ⟨x, -, hrest⟩
      · obtain ⟨text, -, rfl⟩ := operandRead_eq_error hread
        nofun
      · cases hrest

theorem not_guard_of_feedOperator (h : d.feedOperator offset c = .error failure) :
    ¬Guard failure := by
  unfold feedOperator at h
  dsimp only at h
  split at h
  · split at h <;> cases h
    nofun
  · split at h
    · split at h
      · cases h
        nofun
      · split at h <;> cases h
    · split at h
      · cases h
        nofun
      · exact not_guard_of_feedOperand h

theorem Consistent.not_guard_of_feedSpan (hd : d.Consistent) (hspan : d.slots.span.isSome = true)
    (h : d.feedSpan offset c = .error failure) : ¬Guard failure := by
  obtain ⟨span, hspan⟩ := Option.isSome_iff_exists.1 hspan
  obtain ⟨-, -, hlow, hhigh, hphase⟩ := hd.span span hspan
  unfold feedSpan badRange at h
  rw [hspan] at h
  dsimp only at h
  split at h
  · repeat' split at h
    all_goals cases h
    all_goals nofun
  · split at h <;> cases h
    nofun
  · next hhighPhase =>
    split at h
    · cases h
    split at h
    · cases h
      nofun
    split at h
    · cases h
      nofun
    split at h
    · cases h
      nofun
    · next hempty =>
      have hlow := read?_digits hlow fun heq ↦ by cases (hphase heq).symm.trans hhighPhase
      have hhigh := read?_digits hhigh fun heq ↦ hempty (String.isEmpty_iff.2 heq)
      rw [Span.read, hlow, hhigh] at h
      cases h

theorem Consistent.not_guard_of_feedComparison (hd : d.Consistent)
    (h : d.feedComparison offset c = .error failure) : ¬Guard failure := by
  unfold feedComparison at h
  split at h
  · next hspan => exact hd.not_guard_of_feedSpan hspan h
  · split at h
    · exact not_guard_of_feedOperator h
    · exact not_guard_of_feedOperand h

theorem Consistent.not_guard_of_feedResult (hd : d.Consistent) (hstate : d.state = .result)
    (h : d.feedResult offset c = .error failure) : ¬Guard failure := by
  unfold feedResult at h
  dsimp only at h
  split at h
  · cases h
  split at h
  · cases h
    nofun
  · next hfallback =>
    obtain ⟨target, o, x, htarget, ho, hx, -⟩ := hd.result hstate (Bool.eq_false_iff.2 hfallback)
    split at h
    · cases h
      nofun
    · rw [Slots.branch?, htarget, ho, hx] at h
      cases h

/-- Slots that fit together are never found not to. -/
theorem Consistent.not_guard_of_feed (hd : d.Consistent) (h : d.feed offset c = .error failure) :
    ¬Guard failure := by
  unfold feed next at h
  split at h
  · cases h
  split at h
  · exact not_guard_of_feedTarget h
  · exact not_guard_of_feedSeparator h
  · exact hd.not_guard_of_feedComparison h
  · next hstate => exact hd.not_guard_of_feedResult hstate h

theorem not_guard_of_feedAll (h : Represents lead p d)
    (hfeed : d.feedAll offset body = .error failure) : ¬Guard failure := by
  induction body generalizing p d offset with
  | nil => cases hfeed
  | cons c s ih =>
    rcases bind_eq_error_iff.1 hfeed with hfeed | ⟨d', hd', hrest⟩
    · exact h.consistent.not_guard_of_feed hfeed
    · obtain ⟨p', -, h'⟩ := (alike_feed h offset c).exists_of_ok hd'
      exact ih h' hrest

theorem not_guard_of_close (h : d.close offset = .error failure) : ¬Guard failure := by
  unfold close at h
  dsimp only at h
  repeat' split at h
  all_goals cases h
  all_goals nofun

theorem not_guard_of_read (h : Condition.read lead offset body = .error failure) :
    ¬Guard failure := by
  rw [← read_eq] at h
  rcases bind_eq_error_iff.1 h with hfeed | ⟨d, -, hclose⟩
  · exact not_guard_of_feedAll (represents_start lead) hfeed
  · exact not_guard_of_close hclose

variable [Hasher]

theorem not_guard_of_compile {source : String} (h : compile source = .error failure) :
    ¬Guard failure := by
  obtain ⟨before, rest, conditions, tail, -, -, hfailed⟩ :=
    Source.exists_of_readText_error (Source.compile_eq_error_iff.1 h)
  rcases hfailed with ⟨-, rfl⟩ | ⟨quoted, after, rfl, -, hquoted⟩
  · nofun
  · rcases Source.fault_of_readQuoted hquoted with ⟨-, rfl⟩ | hread | ⟨rfl, -⟩
    · nofun
    · exact not_guard_of_read hread
    · nofun

/-- At every character before a failure the slots fit together, the reader with slots reads just the
conditions that are compiled, and no source is refused for slots that do not fit. -/
theorem slots_consistent :
    (∀ lead offset body d, (start lead).feedAll offset body = .ok d → d.Consistent) ∧
      (∀ lead offset body, Draft.read lead offset body = Condition.read lead offset body) ∧
      ∀ source failure, compile source = .error failure → ¬Guard failure :=
  ⟨fun _ _ _ _ ↦ consistent_of_feedAll, read_eq, fun _ _ ↦ not_guard_of_compile⟩

omit [Hasher] in
theorem slots_consistent_range :
    (∃ d, (start "").feedAll 1 "{0}>1:x|{2}!~3.".toList = .ok d ∧ d.Consistent ∧
      d.slots.span = some ⟨.point, "3", ""⟩) ∧
    Draft.read "" 1 "{0}~3..5:x|*:y".toList = Condition.read "" 1 "{0}~3..5:x|*:y".toList ∧
    ∃ failure, @compile Digest.hasher "'{0}~3.:x|*:y'" = .error failure ∧ ¬Guard failure := by
  let _ := Digest.hasher
  have hspan : ((start "").feedAll 1 "{0}>1:x|{2}!~3.".toList).toOption.any fun d ↦
      d.slots.span = some ⟨.point, "3", ""⟩ := by decide +kernel
  have hrefused : error? (compile "'{0}~3.:x|*:y'") =
      some (.malformed 7 (.badRange .brokenSeparator)) := by decide +kernel
  obtain ⟨hconsistent, hread, hguard⟩ := slots_consistent
  refine ⟨?_, hread _ _ _, ?_⟩
  · obtain ⟨d, hd, hspan⟩ := (Option.any_eq_true _ _).1 hspan
    have hd := toOption_eq_some_iff.1 hd
    exact ⟨d, hd, hconsistent _ _ _ _ hd, of_decide_eq_true hspan⟩
  · have hrefused := error?_eq_some_iff.1 hrefused
    exact ⟨_, hrefused, hguard _ _ hrefused⟩

end Phrasing.Draft
