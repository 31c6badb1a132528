import Phrasing.Evaluation.Watched
import Phrasing.Proofs.Comparison
import Phrasing.Proofs.Placeholder

/-!
No comparison ever uses a stopgap.

A watched step that uses none is `lift` of the step without the watch. What is tried before a stopgap
leaves its case out: an argument that was looked up is not null, comparands whose kinds agree have the
same form, and the range operator is set apart before numbers are compared.
-/

namespace Phrasing.Watched

open Outcome

variable {α β : Type} {options : Options} {args : List Value} {operator : Operator}
  {target operand : Comparand} {v : Value}

theorem lift_ok_bind (a : α) (f : α → Watched β) : (lift (.ok a) >>= f) = f a := rfl

theorem lift_bind {x : Except Failure α} {f : α → Watched β} {g : α → Except Failure β}
    (h : ∀ a, x = .ok a → f a = lift (g a)) : (lift x >>= f) = lift (x >>= g) := by
  cases x with
  | error failure => rfl
  | ok a => exact h a rfl

/-! ## One step -/

theorem ofValue_eq_lift (h : v.isNull = false) :
    ofValue v = lift (.ok (Comparand.ofValue v)) := by
  cases v with
  | null => cases h
  | bool | integer | float | text | array | object => rfl

theorem ofOperand_eq_lift (args : List Value) (x : Operand) :
    ofOperand args x = lift (Comparand.ofOperand args x) := by
  cases x with
  | pointer i =>
    rw [ofOperand, Comparand.ofOperand, ← bind_pure_eq_map]
    exact lift_bind fun v hv ↦ ofValue_eq_lift (resolve_eq_ok_iff.1 hv).2
  | integer | float | text | range => rfl

theorem compareNumbers_eq_lift (ho : operator ≠ .range) (x y : Binary64) :
    compareNumbers operator x y = lift (.ok (operator.compare x y)) := by
  cases operator with
  | range => exact absurd rfl ho
  | equal | less | lessOrEqual | greater | greaterOrEqual => rfl

theorem compare_eq_lift (ho : operator ≠ .range) (h : target.SameForm operand) :
    compare operator target operand = lift (target.compare operator operand) := by
  cases h with
  | number x y => exact compareNumbers_eq_lift ho x y
  | text | other => rfl

theorem relate_eq_lift (ho : operator ≠ .range) (htarget : target.IsKinded)
    (hoperand : operand.IsKinded) : relate options operator target operand =
      lift (target.relate options operator operand) := by
  unfold relate Comparand.relate
  split
  · next hagree =>
    exact compare_eq_lift ho (Comparand.sameForm_of_agree htarget hoperand hagree)
  · rfl

/-! ## A whole comparison -/

theorem matched_eq_lift (options : Options) (args : List Value) (c : Comparison) :
    matched options args c = lift (c.matched options args) := by
  obtain ⟨i, operator, negate, x⟩ := c
  refine lift_bind fun v hv ↦ ?_
  rw [ofValue_eq_lift (resolve_eq_ok_iff.1 hv).2, lift_ok_bind]
  by_cases ho : operator = .range
  · subst ho
    cases x <;> rfl
  · have hrelate : (ofOperand args x >>= relate options operator (.ofValue v)) =
        lift (Comparand.ofOperand args x >>= (Comparand.ofValue v).relate options operator) := by
      rw [ofOperand_eq_lift]
      refine lift_bind fun operand hoperand ↦ ?_
      have hkinded := Comparand.isKinded_of_ofOperand hoperand
      exact relate_eq_lift ho (Comparand.isKinded_ofValue v) hkinded
    cases operator with
    | range => exact absurd rfl ho
    | equal | less | lessOrEqual | greater | greaterOrEqual => exact hrelate

theorem evaluate_eq_lift (options : Options) (args : List Value) (c : Comparison) :
    evaluate options args c = lift (c.evaluate options args) := by
  rw [evaluate, matched_eq_lift, Comparison.evaluate, ← bind_pure_eq_map]
  exact lift_bind fun _ _ ↦ rfl

/-- Deciding a comparison uses no stopgap, and under watch it comes to the same as without. When the
kinds of its comparands agree, they have the same form, and each argument that is looked up makes a
comparand of its own kind without a stopgap. -/
theorem evaluate_without_stopgap (options : Options) (args : List Value) (c : Comparison) :
    (evaluate options args c).stopgaps = [] ∧
    (evaluate options args c).outcome = c.evaluate options args ∧
    (∀ v operand, resolve args c.target = .ok v →
      Comparand.ofOperand args c.operand = .ok operand →
      options.agree (Comparand.ofValue v).kind operand.kind = true →
      (Comparand.ofValue v).SameForm operand) ∧
    ∀ i v, resolve args i = .ok v →
      ofValue v = ⟨.ok (Comparand.ofValue v), []⟩ ∧ v.kind? = some (Comparand.ofValue v).kind := by
  refine ⟨?_, ?_, fun v operand _ hoperand ↦ ?_, fun i v hv ↦ ?_⟩
  · rw [evaluate_eq_lift]
    rfl
  · rw [evaluate_eq_lift]
    rfl
  · exact Comparand.sameForm_of_agree (Comparand.isKinded_ofValue v)
      (Comparand.isKinded_of_ofOperand hoperand)
  · have hnull := (resolve_eq_ok_iff.1 hv).2
    exact ⟨ofValue_eq_lift hnull, Comparand.kind?_eq_some_kind hnull⟩

/-- A whole number and a float have the same form when lenient kinds agree. -/
theorem evaluate_without_stopgap_lenient :
    let args := [Value.integer 5, .float (.zero false)]
    let c : Comparison := ⟨0, .greater, false, .pointer 1⟩
    let target := Comparand.ofValue (.integer 5)
    let operand := Comparand.ofValue (.float (.zero false))
    (evaluate ⟨false, false⟩ args c).stopgaps = [] ∧
      (evaluate ⟨false, false⟩ args c).outcome = c.evaluate ⟨false, false⟩ args ∧
      (resolve args 0 = .ok (.integer 5) ∧ Comparand.ofOperand args (.pointer 1) = .ok operand ∧
        Options.agree ⟨false, false⟩ target.kind operand.kind = true ∧ target.SameForm operand) ∧
      ofValue (.integer 5) = ⟨.ok target, []⟩ ∧ (Value.integer 5).kind? = some target.kind := by
  intro args c target operand
  have htarget : resolve args 0 = .ok (.integer 5) := rfl
  have hoperand : Comparand.ofOperand args (.pointer 1) = .ok operand := rfl
  have hagree : Options.agree ⟨false, false⟩ target.kind operand.kind = true := by decide
  obtain ⟨hnone, hsame, hform, hkind⟩ := evaluate_without_stopgap ⟨false, false⟩ args c
  exact ⟨hnone, hsame, ⟨htarget, hoperand, hagree, hform _ _ htarget hoperand hagree⟩,
    hkind 0 _ htarget⟩

/-- Steps that skip what is tried before them do use their stopgaps. -/
example : (ofValue .null).stopgaps = [.otherKind] ∧
    (compare .equal (.text "5") (.number (.ofInt 5) .integer)).stopgaps = [.forms] ∧
    (compareNumbers .range (.ofInt 1) (.ofInt 2)).stopgaps = [.range] := ⟨rfl, rfl, rfl⟩

end Phrasing.Watched
