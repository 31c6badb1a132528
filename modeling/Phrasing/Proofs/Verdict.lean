import Phrasing.Proofs.Comparison
import Phrasing.Proofs.Placeholder

/-!
What a comparison comes to: which failure, of those that could be told, and else which answer. This is
said from the arguments alone, and deciding a comparison comes to just that.
-/

namespace Phrasing

open Outcome

variable {options : Options} {args : List Value} {kind kind' : Kind} {v w : Value} {x : Operand}
  {y z : Binary64} {i : Nat} {c : Comparison} {failure : Failure} {outcome : Except Failure Bool}

namespace Operand

/-- The operand stands for that number: it is the number, or the argument it points to is. -/
inductive IsNumber (args : List Value) : Operand → Kind → Binary64 → Prop
  | pointer {i : Nat} {v : Value} {kind : Kind} {x : Binary64} (hvalue : args[i]? = some v)
      (hkind : v.kind? = some kind) (hx : v.number? = some x) : IsNumber args (pointer i) kind x
  | integer (n : Int) : IsNumber args (integer n) .integer (.ofInt n)
  | float (x : Binary64) : IsNumber args (float x) .float x

/-- The operand stands for that value, which is no number and not null. -/
inductive IsOther (args : List Value) : Operand → Kind → Value → Prop
  | pointer {i : Nat} {v : Value} {kind : Kind} (hvalue : args[i]? = some v)
      (hkind : v.kind? = some kind) (hnumber : kind.isNumber = false) :
      IsOther args (pointer i) kind v
  | text (s : String) : IsOther args (text s) .text (.text s)

/-- The operand stands for something of that kind. -/
def HasKind (args : List Value) (x : Operand) (kind : Kind) : Prop :=
  (∃ y, x.IsNumber args kind y) ∨ ∃ v, x.IsOther args kind v

theorem IsNumber.isNumber (h : x.IsNumber args kind y) : kind.isNumber = true := by
  cases h with
  | @pointer i v kind y hvalue hkind hy =>
    cases v <;> cases hy <;> cases hkind <;> rfl
  | integer | float => rfl

theorem IsOther.kind?_eq (h : x.IsOther args kind v) :
    v.kind? = some kind ∧ kind.isNumber = false := by
  cases h with
  | pointer hvalue hkind hnumber => exact ⟨hkind, hnumber⟩
  | text => exact ⟨rfl, rfl⟩

theorem isNull_of_kind? (h : v.kind? = some kind) : v.isNull = false := by
  cases v <;> first | rfl | cases h

theorem pointer_cases (args : List Value) (i : Nat) :
    (∃ failure, Absent args i failure) ∨ ∃ kind, (pointer i).HasKind args kind := by
  cases hresolve : resolve args i with
  | error failure => exact .inl ⟨failure, resolve_eq_error_iff.1 hresolve⟩
  | ok v =>
    obtain ⟨hvalue, hnull⟩ := resolve_eq_ok_iff.1 hresolve
    cases v with
    | null => cases hnull
    | integer | float => exact .inr ⟨_, .inl ⟨_, .pointer hvalue rfl rfl⟩⟩
    | bool | text | array | object => exact .inr ⟨_, .inr ⟨_, .pointer hvalue rfl rfl⟩⟩

theorem operand_cases (args : List Value) (x : Operand) : x.isRange = true ∨
    (∃ i failure, x = pointer i ∧ Absent args i failure) ∨ ∃ kind, x.HasKind args kind := by
  cases x with
  | range => exact .inl rfl
  | integer n => exact .inr (.inr ⟨_, .inl ⟨_, .integer n⟩⟩)
  | float y => exact .inr (.inr ⟨_, .inl ⟨_, .float y⟩⟩)
  | text s => exact .inr (.inr ⟨_, .inr ⟨_, .text s⟩⟩)
  | pointer i =>
    rcases pointer_cases args i with ⟨failure, hfailure⟩ | hgiven
    · exact .inr (.inl ⟨i, failure, rfl, hfailure⟩)
    · exact .inr (.inr hgiven)

end Operand

/-- What an operator says of two numbers; a range says nothing of two. -/
inductive Operator.Says (y z : Binary64) : Operator → Bool → Prop
  | equal : Says y z equal (y.eq z)
  | less : Says y z less (y.lt z)
  | lessOrEqual : Says y z lessOrEqual (y.le z)
  | greater : Says y z greater (z.lt y)
  | greaterOrEqual : Says y z greaterOrEqual (z.le y)

theorem Operator.says_compare {o : Operator} (ho : o ≠ range) (y z : Binary64) :
    o.Says y z (o.compare y z) := by
  cases o with
  | range => exact absurd rfl ho
  | equal => exact .equal
  | less => exact .less
  | lessOrEqual => exact .lessOrEqual
  | greater => exact .greater
  | greaterOrEqual => exact .greaterOrEqual

theorem Operator.Says.ne_range {o : Operator} {holds : Bool} (h : o.Says y z holds) :
    o ≠ range := by
  rintro rfl
  cases h

theorem Operator.Says.compare_eq {o : Operator} {holds : Bool} (h : o.Says y z holds) :
    o.compare y z = holds := by
  cases h <;> rfl

namespace Comparand

open Operand

theorem ofOperand_pointer (hvalue : args[i]? = some v) (hkind : v.kind? = some kind) :
    ofOperand args (.pointer i) = .ok (ofValue v) := by
  rw [ofOperand, resolve_eq_ok_iff.2 ⟨hvalue, isNull_of_kind? hkind⟩]
  rfl

theorem ofOperand_of_isNumber (h : x.IsNumber args kind y) :
    ofOperand args x = .ok (number y kind) := by
  cases h with
  | @pointer i v kind y hvalue hkind hy =>
    rw [ofOperand_pointer hvalue hkind]
    cases v <;> cases hy <;> cases hkind <;> rfl
  | integer | float => rfl

theorem ofOperand_of_isOther (h : x.IsOther args kind v) :
    ofOperand args x = .ok (ofValue v) := by
  cases h with
  | pointer hvalue hkind => exact ofOperand_pointer hvalue hkind
  | text => rfl

theorem kind_ofValue (h : v.kind? = some kind) : (ofValue v).kind = kind :=
  Option.some.inj ((kind?_eq_some_kind (isNull_of_kind? h)).symm.trans h)

theorem exists_ofOperand (h : x.HasKind args kind) :
    ∃ operand, ofOperand args x = .ok operand ∧ operand.kind = kind := by
  rcases h with ⟨y, hy⟩ | ⟨v, hv⟩
  · exact ⟨_, ofOperand_of_isNumber hy, rfl⟩
  · exact ⟨_, ofOperand_of_isOther hv, kind_ofValue hv.kind?_eq.1⟩

variable {operator : Operator}

theorem relate_of_not_alike {target operand : Comparand}
    (h : ¬options.Alike target.kind operand.kind) : target.relate options operator operand =
      .error (.mismatch target.kind operand.kind) := by
  rw [relate, if_neg (mt Options.agree_iff.1 h)]

theorem relate_number (h : options.Alike kind kind') :
    (number y kind).relate options operator (number z kind') = .ok (operator.compare y z) := by
  rw [relate]
  exact if_pos (Options.agree_iff.2 h)

/-- A value that is no number is compared for equality with a value of its kind. -/
theorem relate_ofValue (hv : v.kind? = some kind) (hw : w.kind? = some kind)
    (hkind : kind.isNumber = false) : (ofValue v).relate options operator (ofValue w) =
      equalityOnly operator kind (v.same w) := by
  rw [relate, kind_ofValue hv, kind_ofValue hw, if_pos (Options.agree_iff.2 (.same kind))]
  cases v <;> cases hv <;> cases w <;> cases hw <;> first | rfl | cases hkind

end Comparand

namespace Comparison

open Operand Comparand

/-- What a comparison comes to. What is listed first is tried first: the target, then whether the
operator goes with the operand, then the operand, the kinds, and the operator on that kind. -/
inductive Verdict (options : Options) (args : List Value) (c : Comparison) :
    Except Failure Bool → Prop
  | noTarget {failure : Failure} (h : Absent args c.target failure) :
      Verdict options args c (.error failure)
  | notRange {kind : Kind} (htarget : (pointer c.target).HasKind args kind)
      (ho : c.operator = .range) (hx : c.operand.isRange = false) :
      Verdict options args c (.error (.unsound (.notRange c.operand)))
  | notNumber {kind : Kind} {v : Value} {low high : Binary64}
      (htarget : (pointer c.target).IsOther args kind v) (ho : c.operator = .range)
      (hx : c.operand = .range low high) : Verdict options args c (.error (.rangeMismatch kind))
  | emptyRange {kind : Kind} {y low high : Binary64}
      (htarget : (pointer c.target).IsNumber args kind y) (ho : c.operator = .range)
      (hx : c.operand = .range low high) (hbounds : high.le low = true) :
      Verdict options args c (.error (.emptyRange low high))
  | range {kind : Kind} {y low high : Binary64}
      (htarget : (pointer c.target).IsNumber args kind y) (ho : c.operator = .range)
      (hx : c.operand = .range low high) (hbounds : high.le low = false) :
      Verdict options args c (.ok (c.negate != (low.le y && y.le high)))
  | strayRange {kind : Kind} (htarget : (pointer c.target).HasKind args kind)
      (ho : c.operator ≠ .range) (hx : c.operand.isRange = true) :
      Verdict options args c (.error (.unsound .strayRange))
  | noOperand {kind : Kind} {i : Nat} {failure : Failure}
      (htarget : (pointer c.target).HasKind args kind) (ho : c.operator ≠ .range)
      (hx : c.operand = .pointer i) (h : Absent args i failure) :
      Verdict options args c (.error failure)
  | mismatch {kind kind' : Kind} (htarget : (pointer c.target).HasKind args kind)
      (ho : c.operator ≠ .range) (hoperand : c.operand.HasKind args kind')
      (h : ¬options.Alike kind kind') : Verdict options args c (.error (.mismatch kind kind'))
  | unsupported {kind : Kind} {v w : Value} (htarget : (pointer c.target).IsOther args kind v)
      (hrange : c.operator ≠ .range) (hequal : c.operator ≠ .equal)
      (hoperand : c.operand.IsOther args kind w) :
      Verdict options args c (.error (.unsupported c.operator kind))
  | number {kind kind' : Kind} {y z : Binary64} {holds : Bool}
      (htarget : (pointer c.target).IsNumber args kind y)
      (hoperand : c.operand.IsNumber args kind' z) (h : options.Alike kind kind')
      (ho : c.operator.Says y z holds) : Verdict options args c (.ok (c.negate != holds))
  | text {s t : String} (htarget : (pointer c.target).IsOther args .text (.text s))
      (ho : c.operator = .equal) (hoperand : c.operand.IsOther args .text (.text t)) :
      Verdict options args c (.ok (c.negate != decide (s = t)))
  | other {kind : Kind} {v w : Value} (htarget : (pointer c.target).IsOther args kind v)
      (htext : kind ≠ .text) (ho : c.operator = .equal)
      (hoperand : c.operand.IsOther args kind w) :
      Verdict options args c (.ok (c.negate != v.same w))

theorem exists_verdict_of_range (htarget : (pointer c.target).HasKind args kind)
    (ho : c.operator = .range) : ∃ outcome, c.Verdict options args outcome := by
  cases hrange : c.operand.isRange with
  | false => exact ⟨_, .notRange htarget ho hrange⟩
  | true =>
    obtain ⟨low, high, hx⟩ : ∃ low high, c.operand = .range low high := by
      cases hx : c.operand with
      | range low high => exact ⟨low, high, rfl⟩
      | pointer | integer | float | text =>
        rw [hx] at hrange
        cases hrange
    rcases htarget with ⟨y, hy⟩ | ⟨v, hv⟩
    · cases hbounds : high.le low with
      | true => exact ⟨_, .emptyRange hy ho hx hbounds⟩
      | false => exact ⟨_, .range hy ho hx hbounds⟩
    · exact ⟨_, .notNumber hv ho hx⟩

theorem exists_verdict_of_alike (htarget : (pointer c.target).HasKind args kind)
    (ho : c.operator ≠ .range) (hoperand : c.operand.HasKind args kind')
    (halike : options.Alike kind kind') : ∃ outcome, c.Verdict options args outcome := by
  rcases htarget with ⟨y, hy⟩ | ⟨v, hv⟩
  · rcases hoperand with ⟨z, hz⟩ | ⟨w, hw⟩
    · exact ⟨_, .number hy hz halike (c.operator.says_compare ho y z)⟩
    · cases (hy.isNumber.symm.trans halike.isNumber_eq).trans hw.kind?_eq.2
  · rcases hoperand with ⟨z, hz⟩ | ⟨w, hw⟩
    · cases (hv.kind?_eq.2.symm.trans halike.isNumber_eq).trans hz.isNumber
    · obtain rfl := halike.eq_of_isNumber hv.kind?_eq.2
      by_cases hequal : c.operator = .equal
      · by_cases htext : kind = .text
        · subst htext
          obtain ⟨s, rfl⟩ : ∃ s, v = .text s := by
            have hkind := hv.kind?_eq.1
            cases v <;> cases hkind
            exact ⟨_, rfl⟩
          obtain ⟨t, rfl⟩ : ∃ t, w = .text t := by
            have hkind := hw.kind?_eq.1
            cases w <;> cases hkind
            exact ⟨_, rfl⟩
          exact ⟨_, .text hv hequal hw⟩
        · exact ⟨_, .other hv htext hequal hw⟩
      · exact ⟨_, .unsupported hv ho hequal hw⟩

theorem exists_verdict (options : Options) (args : List Value) (c : Comparison) :
    ∃ outcome, c.Verdict options args outcome := by
  rcases pointer_cases args c.target with ⟨failure, hfailure⟩ | ⟨kind, htarget⟩
  · exact ⟨_, .noTarget hfailure⟩
  by_cases ho : c.operator = .range
  · exact exists_verdict_of_range htarget ho
  rcases operand_cases args c.operand with hrange | ⟨i, failure, hx, hfailure⟩ | ⟨kind', hoperand⟩
  · exact ⟨_, .strayRange htarget ho hrange⟩
  · exact ⟨_, .noOperand htarget ho hx hfailure⟩
  by_cases halike : options.Alike kind kind'
  · exact exists_verdict_of_alike htarget ho hoperand halike
  · exact ⟨_, .mismatch htarget ho hoperand halike⟩

theorem matched_of_target {target : Comparand}
    (htarget : ofOperand args (.pointer c.target) = .ok target) :
    c.matched options args =
      match c.operator, c.operand with
      | .range, .range low high => target.inRange low high
      | .range, x => .error (.unsound (.notRange x))
      | operator, x => ofOperand args x >>= target.relate options operator := by
  obtain ⟨v, hresolve, rfl⟩ := map_eq_ok_iff.1 htarget
  rw [matched, hresolve]
  rfl

theorem evaluate_range_of_target {target : Comparand} {low high : Binary64}
    (htarget : ofOperand args (.pointer c.target) = .ok target) (ho : c.operator = .range)
    (hx : c.operand = .range low high) :
    c.evaluate options args = (target.inRange low high).map (c.negate != ·) := by
  rw [evaluate, matched_of_target htarget, ho, hx]

theorem evaluate_of_target {target : Comparand}
    (htarget : ofOperand args (.pointer c.target) = .ok target) (ho : c.operator ≠ .range) :
    c.evaluate options args =
      (ofOperand args c.operand >>= target.relate options c.operator).map (c.negate != ·) := by
  rw [evaluate, matched_of_target htarget]
  cases hoperator : c.operator with
  | range => exact absurd hoperator ho
  | equal | less | lessOrEqual | greater | greaterOrEqual => rfl

theorem evaluate_of_other (htarget : (pointer c.target).IsOther args kind v)
    (ho : c.operator ≠ .range) (hoperand : c.operand.IsOther args kind w) :
    c.evaluate options args =
      (equalityOnly c.operator kind (v.same w)).map (c.negate != ·) := by
  obtain ⟨hkind, hnumber⟩ := htarget.kind?_eq
  rw [evaluate_of_target (ofOperand_of_isOther htarget) ho, ofOperand_of_isOther hoperand]
  exact congrArg _ (relate_ofValue hkind hoperand.kind?_eq.1 hnumber)

theorem Verdict.evaluate_eq (h : c.Verdict options args outcome) :
    c.evaluate options args = outcome := by
  cases h with
  | noTarget h =>
    rw [evaluate, matched, resolve_eq_error_iff.2 h]
    rfl
  | notRange htarget ho hx =>
    obtain ⟨target, htarget, -⟩ := exists_ofOperand htarget
    rw [evaluate, matched_of_target htarget, ho]
    cases hoperand : c.operand with
    | range =>
      rw [hoperand] at hx
      cases hx
    | pointer | integer | float | text => rfl
  | @notNumber kind v low high htarget ho hx =>
    rw [evaluate_range_of_target (ofOperand_of_isOther htarget) ho hx]
    obtain ⟨hkind, hnumber⟩ := htarget.kind?_eq
    cases v <;> cases hkind <;> first | rfl | cases hnumber
  | emptyRange htarget ho hx hbounds =>
    rw [evaluate_range_of_target (ofOperand_of_isNumber htarget) ho hx, inRange, if_pos hbounds]
    rfl
  | range htarget ho hx hbounds =>
    rw [evaluate_range_of_target (ofOperand_of_isNumber htarget) ho hx, inRange,
      if_neg (by simp [hbounds])]
    rfl
  | strayRange htarget ho hx =>
    obtain ⟨target, htarget, -⟩ := exists_ofOperand htarget
    rw [evaluate_of_target htarget ho]
    cases hoperand : c.operand with
    | range => rfl
    | pointer | integer | float | text =>
      rw [hoperand] at hx
      cases hx
  | noOperand htarget ho hx h =>
    obtain ⟨target, htarget, -⟩ := exists_ofOperand htarget
    rw [evaluate_of_target htarget ho, hx, ofOperand, resolve_eq_error_iff.2 h]
    rfl
  | mismatch hkind ho hkind' h =>
    obtain ⟨target, htarget, rfl⟩ := exists_ofOperand hkind
    obtain ⟨operand, hoperand, rfl⟩ := exists_ofOperand hkind'
    rw [evaluate_of_target htarget ho, hoperand]
    exact congrArg _ (relate_of_not_alike h)
  | unsupported htarget ho hequal hoperand =>
    rw [evaluate_of_other htarget ho hoperand, equalityOnly, if_neg hequal]
    rfl
  | number htarget hoperand h ho =>
    rw [evaluate_of_target (ofOperand_of_isNumber htarget) ho.ne_range,
      ofOperand_of_isNumber hoperand, ← ho.compare_eq]
    exact congrArg _ (relate_number h)
  | text htarget ho hoperand =>
    rw [evaluate_of_other htarget (by simp [ho]) hoperand, equalityOnly, if_pos ho]
    rfl
  | other htarget htext ho hoperand =>
    rw [evaluate_of_other htarget (by simp [ho]) hoperand, equalityOnly, if_pos ho]
    rfl

/-- A comparison comes to one verdict, the one that the arguments say. -/
theorem evaluate_eq_iff_verdict (options : Options) (args : List Value) (c : Comparison)
    (outcome : Except Failure Bool) :
    c.evaluate options args = outcome ↔ c.Verdict options args outcome := by
  constructor
  · intro h
    obtain ⟨verdict, hverdict⟩ := exists_verdict options args c
    rw [← h, hverdict.evaluate_eq]
    exact hverdict
  · exact Verdict.evaluate_eq

/-- The target is looked at before the bounds are. -/
example : evaluate .standard [.text "five"]
    ⟨0, .range, false, .range (.infinity false) (.infinity true)⟩ = .error (.rangeMismatch .text) := rfl

end Comparison

end Phrasing
