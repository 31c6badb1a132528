import Phrasing.Evaluation
import Phrasing.Proofs.Outcome

/-!
The ways a comparison can fail. Comparands have kinds that go with their forms, so values whose kinds
agree are always compared, and then only the operator can be refused.
-/

namespace Phrasing

open Outcome

/-- Kinds of values that can be compared: equal kinds, and lenient kinds of numbers. -/
inductive Options.Alike (options : Options) : Kind → Kind → Prop
  | same (kind : Kind) : Alike options kind kind
  | integerFloat (h : options.strict = false) : Alike options .integer .float
  | floatInteger (h : options.strict = false) : Alike options .float .integer

variable {options : Options} {args : List Value} {failure : Failure} {kind kind' : Kind}

theorem Options.agree_iff : options.agree kind kind' = true ↔ options.Alike kind kind' := by
  constructor
  · intro h
    simp only [agree, Bool.or_eq_true, beq_iff_eq, Bool.and_eq_true, Bool.not_eq_true'] at h
    rcases h with rfl | ⟨⟨hstrict, hkind⟩, hkind'⟩
    · exact .same kind
    · cases kind <;> cases hkind <;> cases kind' <;> cases hkind'
      · exact .same _
      · exact .integerFloat hstrict
      · exact .floatInteger hstrict
      · exact .same _
  · intro h
    cases h with
    | same => simp [agree]
    | integerFloat hstrict | floatInteger hstrict => simp [agree, hstrict, Kind.isNumber]

theorem Options.Alike.isNumber_eq (h : options.Alike kind kind') :
    kind.isNumber = kind'.isNumber := by
  cases h <;> rfl

theorem Options.Alike.eq_of_isNumber (h : options.Alike kind kind') (hkind : kind.isNumber = false) :
    kind = kind' := by
  cases h with
  | same => rfl
  | integerFloat | floatInteger => cases hkind

theorem Options.Alike.symm (h : options.Alike kind kind') : options.Alike kind' kind := by
  cases h with
  | same => exact .same kind
  | integerFloat hstrict => exact .floatInteger hstrict
  | floatInteger hstrict => exact .integerFloat hstrict

/-- Kinds that agree are both numbers or not, and both text or not. -/
theorem Options.alike_of_agree {a b : Kind} (h : options.agree a b = true) :
    a.isNumber = b.isNumber ∧ (a = .text ↔ b = .text) := by
  cases agree_iff.1 h with
  | same => exact ⟨rfl, Iff.rfl⟩
  | integerFloat | floatInteger => simp [Kind.isNumber]

namespace Comparand

/-- The kind of a comparand is one that goes with its form. -/
inductive IsKinded : Comparand → Prop
  | number (x : Binary64) {kind : Kind} (hkind : kind.isNumber = true) : IsKinded (.number x kind)
  | text (s : String) : IsKinded (.text s)
  | other (value : Value) {kind : Kind} (hkind : kind.isNumber = false) (htext : kind ≠ .text) :
      IsKinded (.other value kind)

variable {operator : Operator} {target operand : Comparand} {low high : Binary64}

/-- A comparand has the kind of the argument that it was made from. -/
theorem kind?_eq_some_kind {v : Value} (h : v.isNull = false) : v.kind? = some (ofValue v).kind := by
  cases v with
  | null => cases h
  | bool | integer | float | text | array | object => rfl

theorem isKinded_ofValue (value : Value) : (ofValue value).IsKinded := by
  cases value with
  | integer n => exact .number _ rfl
  | float x => exact .number _ rfl
  | text s => exact .text s
  | null | bool | array | object => exact .other _ rfl nofun

theorem isKinded_of_ofOperand {x : Operand} (h : ofOperand args x = .ok operand) :
    operand.IsKinded := by
  cases x with
  | pointer index =>
    obtain ⟨value, -, rfl⟩ := map_eq_ok_iff.1 h
    exact isKinded_ofValue value
  | integer n =>
    cases h
    exact .number _ rfl
  | float x =>
    cases h
    exact .number x rfl
  | text s =>
    cases h
    exact .text s
  | range low high => cases h

theorem ofOperand_error {x : Operand} (h : ofOperand args x = .error failure) :
    (∃ i ∈ x.pointer?, resolve args i = .error failure) ∨
      x.isRange = true ∧ failure = .unsound .strayRange := by
  cases x with
  | pointer index => exact .inl ⟨index, rfl, map_eq_error_iff.1 h⟩
  | integer | float | text => cases h
  | range low high =>
    cases h
    exact .inr ⟨rfl, rfl⟩

theorem inRange_error (h : target.inRange low high = .error failure) :
    failure = .emptyRange low high ∨ failure = .rangeMismatch target.kind := by
  unfold inRange at h
  split at h
  · split at h <;> cases h
    exact .inl rfl
  · cases h
    exact .inr rfl

theorem equalityOnly_error {kind : Kind} {answer : Bool}
    (h : equalityOnly operator kind answer = .error failure) :
    failure = .unsupported operator kind := by
  unfold equalityOnly at h
  split at h <;> cases h
  rfl

/-- Comparands of the same form, whatever they hold. -/
inductive SameForm : Comparand → Comparand → Prop
  | number (x y : Binary64) (kind kind' : Kind) : SameForm (.number x kind) (.number y kind')
  | text (s t : String) : SameForm (.text s) (.text t)
  | other (v w : Value) (kind kind' : Kind) : SameForm (.other v kind) (.other w kind')

/-- Comparands of kinds that agree have the same form. -/
theorem sameForm_of_agree (htarget : target.IsKinded) (hoperand : operand.IsKinded)
    (hagree : options.agree target.kind operand.kind = true) : target.SameForm operand := by
  obtain ⟨hnumber, htext⟩ := Options.alike_of_agree hagree
  cases htarget with
  | number x hx =>
    cases hoperand with
    | number => exact .number _ _ _ _
    | text => cases hx.symm.trans hnumber
    | other w hw => cases (hx.symm.trans hnumber).trans hw
  | text s =>
    cases hoperand with
    | number y hy => cases hnumber.trans hy
    | text => exact .text _ _
    | other w hw hne => exact absurd (htext.1 rfl) hne
  | other v hv hne =>
    cases hoperand with
    | number y hy => cases (hv.symm.trans hnumber).trans hy
    | text => exact absurd (htext.2 rfl) hne
    | other => exact .other _ _ _ _

theorem compare_error (h : target.SameForm operand)
    (hcompare : compare operator target operand = .error failure) :
    failure = .unsupported operator target.kind := by
  cases h with
  | number => cases hcompare
  | text | other => exact equalityOnly_error hcompare

theorem relate_error (htarget : target.IsKinded) (hoperand : operand.IsKinded)
    (h : relate options operator target operand = .error failure) :
    options.agree target.kind operand.kind = false ∧
        failure = .mismatch target.kind operand.kind ∨
      failure = .unsupported operator target.kind := by
  unfold relate at h
  split at h
  · next hagree => exact .inr (compare_error (sameForm_of_agree htarget hoperand hagree) h)
  · next hagree =>
    cases h
    exact .inl ⟨by simpa using hagree, rfl⟩

end Comparand

namespace Comparison

/-- The failures that a comparison can have on an argument list. -/
inductive Fails (options : Options) (args : List Value) (c : Comparison) : Failure → Prop
  | lookup {i : Nat} {failure : Failure} (hi : i ∈ c.target :: c.operand.pointer?.toList)
      (hresolve : resolve args i = .error failure) : Fails options args c failure
  | unfit (flaw : Flaw) (h : c.isMatched = false) : Fails options args c (.unsound flaw)
  | emptyRange (low high : Binary64) : Fails options args c (.emptyRange low high)
  | rangeMismatch (target : Kind) : Fails options args c (.rangeMismatch target)
  | mismatch {target operand : Kind} (hagree : options.agree target operand = false) :
      Fails options args c (.mismatch target operand)
  | unsupported (target : Kind) : Fails options args c (.unsupported c.operator target)

theorem fails_of_evaluate {c : Comparison} (h : c.evaluate options args = .error failure) :
    c.Fails options args failure := by
  obtain ⟨target, operator, negate, x⟩ := c
  rcases bind_eq_error_iff.1 (map_eq_error_iff.1 h) with htarget | ⟨value, -, h⟩
  · exact .lookup (by simp) htarget
  · dsimp only at h
    split at h
    · rcases Comparand.inRange_error h with rfl | rfl
      · exact .emptyRange _ _
      · exact .rangeMismatch _
    · next hnot =>
      cases h
      refine .unfit _ ?_
      cases x with
      | range low high => exact absurd rfl (hnot low high)
      | _ => rfl
    · next hplain _ =>
      rcases bind_eq_error_iff.1 h with hoperand | ⟨operand, hoperand, h⟩
      · rcases Comparand.ofOperand_error hoperand with ⟨i, hi, hresolve⟩ | ⟨hx, rfl⟩
        · exact .lookup (by simp [Option.mem_def.1 hi]) hresolve
        · refine .unfit _ ?_
          cases operator with
          | range => exact absurd rfl hplain
          | _ => simp [isMatched, Operator.isRange, hx]
      · have hkinded := Comparand.isKinded_of_ofOperand hoperand
        rcases Comparand.relate_error (Comparand.isKinded_ofValue value) hkinded h with
          ⟨hagree, rfl⟩ | rfl
        · exact .mismatch hagree
        · exact .unsupported _

end Comparison

end Phrasing
