import Phrasing.Proofs.Agreement
import Phrasing.Proofs.Lookup

/-!
Strict and lenient kinds of numbers. What lenient kinds change is that whole numbers are compared with
floats; all else has the outcome it has with strict kinds.
-/

namespace Phrasing

open Outcome

/-- A whole number was to be compared with a float. -/
inductive Failure.IsNumericMismatch : Failure → Prop
  | integer : IsNumericMismatch (.mismatch .integer .float)
  | float : IsNumericMismatch (.mismatch .float .integer)

variable {args : List Value} {trace : Bool} {failure : Failure} {c : Comparison}

theorem Failure.IsLookup.not_isNumericMismatch (h : failure.IsLookup) :
    ¬failure.IsNumericMismatch := by
  rintro ⟨⟩ <;> cases h

/-- Lenient kinds agree where strict kinds do, and where both are numbers. -/
theorem Options.agree_lenient (a b : Kind) : Options.agree ⟨false, trace⟩ a b = true ↔
    Options.agree ⟨true, trace⟩ a b = true ∨ (Failure.mismatch a b).IsNumericMismatch := by
  rw [agree_iff, agree_iff]
  constructor
  · intro h
    cases h with
    | same => exact .inl (.same a)
    | integerFloat => exact .inr .integer
    | floatInteger => exact .inr .float
  · rintro (h | h)
    · cases h with
      | same => exact .same a
      | integerFloat hstrict | floatInteger hstrict => cases hstrict
    · cases h with
      | integer => exact .integerFloat rfl
      | float => exact .floatInteger rfl

namespace Comparand

variable {operator : Operator} {target operand : Comparand}

theorem relate_lenient : SameUnless Failure.IsNumericMismatch
    (target.relate ⟨true, trace⟩ operator operand) (target.relate ⟨false, trace⟩ operator operand) := by
  unfold relate
  split
  · next hagree =>
    rw [if_pos ((Options.agree_lenient _ _).2 (.inl hagree))]
    exact .same _
  · next hagree =>
    split
    · next hlenient =>
      exact .excused (((Options.agree_lenient _ _).1 hlenient).resolve_left hagree) _
    · exact .same _

/-- A whole number and a float are compared as doubles. -/
theorem exists_relate_lenient (htarget : target.IsKinded) (hoperand : operand.IsKinded)
    (h : (Failure.mismatch target.kind operand.kind).IsNumericMismatch) :
    ∃ holds, target.relate ⟨false, trace⟩ operator operand = .ok holds := by
  have hnumbers : target.kind.isNumber = true ∧ operand.kind.isNumber = true := by
    generalize target.kind = a at h
    generalize operand.kind = b at h
    cases h <;> exact ⟨rfl, rfl⟩
  have hagree : Options.agree ⟨false, trace⟩ target.kind operand.kind = true :=
    (Options.agree_lenient _ _).2 (.inr h)
  rw [relate, if_pos hagree]
  cases sameForm_of_agree htarget hoperand hagree with
  | number x y => exact ⟨operator.compare x y, rfl⟩
  | text => cases hnumbers.1
  | other =>
    cases htarget with
    | other v hv => cases hv.symm.trans hnumbers.1

end Comparand

namespace Comparison

theorem evaluate_lenient : SameUnless Failure.IsNumericMismatch
    (c.evaluate ⟨true, trace⟩ args) (c.evaluate ⟨false, trace⟩ args) := by
  refine .map (.bind (.same _) fun value ↦ ?_) _
  dsimp only
  split
  · exact .same _
  · exact .same _
  · exact .bind (.same _) fun operand ↦ Comparand.relate_lenient

theorem Fails.not_isNumericMismatch (h : c.Fails ⟨false, trace⟩ args failure) :
    ¬failure.IsNumericMismatch := by
  cases h with
  | lookup hi hresolve => exact (resolve_isLookup hresolve).not_isNumericMismatch
  | mismatch hagree =>
    intro hmismatch
    cases hagree.symm.trans ((Options.agree_lenient _ _).2 (.inr hmismatch))
  | unfit | emptyRange | rangeMismatch | unsupported => nofun

theorem matched_of_ne_range {options : Options} (h : c.operator ≠ .range) :
    c.matched options args = (do
      let value ← resolve args c.target
      let operand ← Comparand.ofOperand args c.operand
      Comparand.relate options c.operator (.ofValue value) operand) := by
  unfold matched
  congr 1
  funext value
  split
  · next hrange _ => exact absurd hrange h
  · next hrange _ => exact absurd hrange h
  · rfl

theorem evaluate_of_range {options options' : Options} (h : c.operator = .range) :
    c.evaluate options args = c.evaluate options' args := by
  rw [evaluate, evaluate, matched, matched, h]
  cases c.operand <;> rfl

/-- A comparison that strict kinds refuse for its numbers is decided with lenient kinds. -/
theorem exists_evaluate_lenient (h : c.evaluate ⟨true, trace⟩ args = .error failure)
    (hfailure : failure.IsNumericMismatch) :
    ∃ holds, c.evaluate ⟨false, trace⟩ args = .ok holds := by
  by_cases hrange : c.operator = .range
  · have hlenient : c.evaluate ⟨false, trace⟩ args = .error failure :=
      (evaluate_of_range hrange).trans h
    exact absurd hfailure (fails_of_evaluate hlenient).not_isNumericMismatch
  · rw [evaluate, matched_of_ne_range hrange] at h ⊢
    rcases bind_eq_error_iff.1 (map_eq_error_iff.1 h) with htarget | ⟨value, htarget, h⟩
    · exact absurd hfailure (resolve_isLookup htarget).not_isNumericMismatch
    rcases bind_eq_error_iff.1 h with hoperand | ⟨operand, hoperand, h⟩
    · rcases Comparand.ofOperand_error hoperand with ⟨i, -, hi⟩ | ⟨-, rfl⟩
      · exact absurd hfailure (resolve_isLookup hi).not_isNumericMismatch
      · cases hfailure
    have hvalue := Comparand.isKinded_ofValue value
    have hkinded := Comparand.isKinded_of_ofOperand hoperand
    rcases Comparand.relate_error hvalue hkinded h with ⟨-, rfl⟩ | rfl
    · obtain ⟨holds, hholds⟩ := Comparand.exists_relate_lenient hvalue hkinded hfailure
      exact ⟨_, map_eq_ok_iff.2 ⟨holds, by rw [htarget, hoperand]; exact hholds, rfl⟩⟩
    · cases hfailure

end Comparison

namespace Template

variable [Hasher]

/-- With lenient kinds a template is rendered as with strict kinds, unless these refuse to compare a
whole number with a float; lenient kinds never refuse that, and decide what strict kinds refuse for it. -/
theorem render_lenient (t : Template) (args : List Value) (trace : Bool) :
    (∀ r, t.render ⟨true, trace⟩ args = .ok r → t.render ⟨false, trace⟩ args = .ok r) ∧
    (∀ failure, t.render ⟨true, trace⟩ args = .error failure → ¬failure.IsNumericMismatch →
      t.render ⟨false, trace⟩ args = .error failure) ∧
    (∀ failure, t.render ⟨false, trace⟩ args = .error failure → ¬failure.IsNumericMismatch) ∧
    ∀ c : Comparison, ∀ failure, c.evaluate ⟨true, trace⟩ args = .error failure →
      failure.IsNumericMismatch → ∃ holds, c.evaluate ⟨false, trace⟩ args = .ok holds := by
  have hsame : SameUnless Failure.IsNumericMismatch (t.render ⟨true, trace⟩ args)
      (t.render ⟨false, trace⟩ args) :=
    .render rfl (fun _ _ _ _ ↦ Comparison.evaluate_lenient) fun _ ↦ .same _
  refine ⟨fun r ↦ hsame.ok_of_ok, fun failure ↦ hsame.error_of_error, fun failure h ↦ ?_,
    fun c failure ↦ Comparison.exists_evaluate_lenient⟩
  rcases Source.exists_of_render h with ⟨s, -, flaw, -, rfl⟩ | ⟨s, -, b, -, hfails⟩ | ⟨i, hresolve⟩
  · nofun
  · exact hfails.not_isNumericMismatch
  · exact (resolve_isLookup hresolve).not_isNumericMismatch

omit [Hasher] in
theorem render_lenient_zero : ∃ t, @compile Digest.hasher "'{0}=0:none|*:some'" = .ok t ∧
    (∃ r, @render Digest.hasher ⟨true, true⟩ [.integer 0] t = .ok r ∧
      @render Digest.hasher ⟨false, true⟩ [.integer 0] t = .ok r) ∧
    (∃ failure, @render Digest.hasher ⟨true, true⟩ [.text "0"] t = .error failure ∧
      ¬failure.IsNumericMismatch ∧
      @render Digest.hasher ⟨false, true⟩ [.text "0"] t = .error failure) ∧
    (∃ failure, @render Digest.hasher ⟨true, true⟩ [.float (.zero false)] t = .error failure ∧
      failure.IsNumericMismatch ∧
      ∃ r, @render Digest.hasher ⟨false, true⟩ [.float (.zero false)] t = .ok r) ∧
    ∃ failure holds,
      Comparison.evaluate ⟨true, true⟩ [.float (.zero false)] ⟨0, .equal, false, .integer 0⟩ =
          .error failure ∧
        failure.IsNumericMismatch ∧
        Comparison.evaluate ⟨false, true⟩ [.float (.zero false)] ⟨0, .equal, false, .integer 0⟩ =
          .ok holds := by
  let _ := Digest.hasher
  have hrun : (compile "'{0}=0:none|*:some'").toOption.any fun t ↦
      (t.render ⟨true, true⟩ [.integer 0]).toOption.isSome ∧
        error? (t.render ⟨false, true⟩ [.text "0"]) = some (.mismatch .text .integer) ∧
        error? (t.render ⟨true, true⟩ [.text "0"]) = some (.mismatch .text .integer) ∧
        error? (t.render ⟨true, true⟩ [.float (.zero false)]) = some (.mismatch .float .integer) ∧
        (t.render ⟨false, true⟩ [.float (.zero false)]).toOption.isSome := by
    decide +kernel
  obtain ⟨t, ht, hfacts⟩ := (Option.any_eq_true _ _).1 hrun
  obtain ⟨hinteger, hlenient, htext, hfloat, hrepaired⟩ := of_decide_eq_true hfacts
  obtain ⟨r, hr⟩ := Option.isSome_iff_exists.1 hinteger
  obtain ⟨r', hr'⟩ := Option.isSome_iff_exists.1 hrepaired
  have hr := toOption_eq_some_iff.1 hr
  have htext := error?_eq_some_iff.1 htext
  have hfloat := error?_eq_some_iff.1 hfloat
  have hsame := (render_lenient t [.integer 0] true).1 r hr
  have hother := (render_lenient t [.text "0"] true).2.2.1 _ (error?_eq_some_iff.1 hlenient)
  have hcomparison : Comparison.evaluate ⟨true, true⟩ [.float (.zero false)]
      ⟨0, .equal, false, .integer 0⟩ = .error (.mismatch .float .integer) := rfl
  obtain ⟨holds, hholds⟩ :=
    (render_lenient t [.float (.zero false)] true).2.2.2 _ _ hcomparison .float
  refine ⟨t, toOption_eq_some_iff.1 ht, ⟨r, hr, hsame⟩, ⟨_, htext, hother, ?_⟩, ?_, ?_⟩
  · exact (render_lenient t [.text "0"] true).2.1 _ htext hother
  · exact ⟨_, hfloat, .float, r', toOption_eq_some_iff.1 hr'⟩
  · exact ⟨_, holds, hcomparison, .float, hholds⟩

end Template

end Phrasing
