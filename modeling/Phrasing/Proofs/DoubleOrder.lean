import Phrasing.Binary64.Rounding
import Phrasing.Operator

/-!
The order of doubles. Numbers are in order as their places are, and nothing is in order with what is
not a number.
-/

namespace Phrasing

namespace Binary64

variable {x y z : Binary64} {a b : Int}

theorem exists_key (h : x.isNan = false) : ∃ a, x.key = some a := by
  cases x with
  | finite x => exact ⟨_, rfl⟩
  | infinity negative => exact ⟨_, rfl⟩
  | nan => cases h

theorem key_of_isNan (h : x.isNan = true) : x.key = none := by
  cases x with
  | nan => rfl
  | finite | infinity => cases h

theorem holds_of_isNan {test : Int → Int → Bool} (h : x.isNan = true ∨ y.isNan = true) :
    holds test x y = false := by
  unfold holds
  rcases h with h | h
  · rw [key_of_isNan h]
  · rw [key_of_isNan h]
    cases x.key <;> rfl

theorem eq_of_key (hx : x.key = some a) (hy : y.key = some b) : x.eq y = decide (a = b) := by
  simp [eq, holds, hx, hy]

theorem lt_of_key (hx : x.key = some a) (hy : y.key = some b) : x.lt y = decide (a < b) := by
  simp [lt, holds, hx, hy]

theorem le_of_key (hx : x.key = some a) (hy : y.key = some b) : x.le y = decide (a ≤ b) := by
  simp [le, holds, hx, hy]

theorem eq_comm (x y : Binary64) : x.eq y = y.eq x := by
  unfold eq holds
  cases x.key with
  | none => cases y.key <;> rfl
  | some a =>
    cases y.key with
    | none => rfl
    | some b => simp [Eq.comm]

theorem not_lt (hx : x.isNan = false) (hy : y.isNan = false) : (!x.lt y) = y.le x := by
  obtain ⟨a, ha⟩ := exists_key hx
  obtain ⟨b, hb⟩ := exists_key hy
  rw [lt_of_key ha hb, le_of_key hb ha, ← decide_not, decide_eq_decide]
  exact Int.not_lt

theorem le_iff_lt_or_eq (hx : x.isNan = false) (hy : y.isNan = false) :
    x.le y = true ↔ x.lt y = true ∨ x.eq y = true := by
  obtain ⟨a, ha⟩ := exists_key hx
  obtain ⟨b, hb⟩ := exists_key hy
  rw [le_of_key ha hb, lt_of_key ha hb, eq_of_key ha hb]
  simp only [decide_eq_true_eq]
  exact Int.le_iff_lt_or_eq

theorem not_isNan_of_holds {test : Int → Int → Bool} (h : holds test x y = true) :
    x.isNan = false ∧ y.isNan = false := by
  refine ⟨Bool.eq_false_iff.2 fun hx ↦ ?_, Bool.eq_false_iff.2 fun hy ↦ ?_⟩
  · cases (holds_of_isNan (.inl hx)).symm.trans h
  · cases (holds_of_isNan (.inr hy)).symm.trans h

theorem le_trans (hxy : x.le y = true) (hyz : y.le z = true) : x.le z = true := by
  obtain ⟨a, ha⟩ := exists_key (not_isNan_of_holds hxy).1
  obtain ⟨b, hb⟩ := exists_key (not_isNan_of_holds hxy).2
  obtain ⟨c, hc⟩ := exists_key (not_isNan_of_holds hyz).2
  rw [le_of_key ha hb, decide_eq_true_eq] at hxy
  rw [le_of_key hb hc, decide_eq_true_eq] at hyz
  rw [le_of_key ha hc, decide_eq_true_eq]
  exact Int.le_trans hxy hyz

/-- Of two numbers one is less than the other, or they are equal, and just one of the three. -/
theorem lt_trichotomy (hx : x.isNan = false) (hy : y.isNan = false) :
    (x.lt y = true ∧ x.eq y = false ∧ y.lt x = false) ∨
      (x.lt y = false ∧ x.eq y = true ∧ y.lt x = false) ∨
      (x.lt y = false ∧ x.eq y = false ∧ y.lt x = true) := by
  obtain ⟨a, ha⟩ := exists_key hx
  obtain ⟨b, hb⟩ := exists_key hy
  rw [lt_of_key ha hb, lt_of_key hb ha, eq_of_key ha hb]
  simp only [decide_eq_true_eq, decide_eq_false_iff_not]
  omega

theorem le_of_lt (h : x.lt y = true) : x.le y = true := by
  obtain ⟨hx, hy⟩ := not_isNan_of_holds h
  exact (le_iff_lt_or_eq hx hy).2 (.inl h)

theorem le_self (h : x.isNan = false) : x.le x = true := by
  obtain ⟨a, ha⟩ := exists_key h
  simp [le_of_key ha ha]

/-- Between two numbers, one less than the other, there is a finite one. -/
theorem exists_between (h : x.lt y = true) :
    ∃ z : Finite, x.le (finite z) = true ∧ (finite z).le y = true := by
  cases y with
  | finite z => exact ⟨z, le_of_lt h, le_self rfl⟩
  | nan => cases (not_isNan_of_holds h).2
  | infinity negative' =>
    cases x with
    | finite z => exact ⟨z, le_self rfl, le_of_lt h⟩
    | nan => cases h
    | infinity negative =>
      have hpos := limit_pos
      rw [lt_of_key rfl rfl, decide_eq_true_eq] at h
      refine ⟨.zero false, ?_⟩
      rw [le_of_key rfl rfl, le_of_key rfl rfl, Finite.toInt_zero, decide_eq_true_eq,
        decide_eq_true_eq]
      grind

theorem isNan_nearest (negative : Bool) (num den : Nat) :
    (nearest negative num den).isNan = false := by
  unfold nearest ofUnits
  split <;> rfl

theorem isNan_ofInt (n : Int) : (ofInt n).isNan = false := isNan_nearest _ _ _

/-- Two zeros of opposite signs. -/
def Opposed (x y : Binary64) : Prop :=
  ∃ negative, x = finite (.zero negative) ∧ y = finite (.zero !negative)

theorem not_opposed_self (x : Binary64) : ¬x.Opposed x := by
  intro h
  obtain ⟨negative, rfl, h⟩ := h
  have hsign : negative = !negative := congrArg Finite.negative (finite.inj h)
  cases negative <;> cases hsign

theorem Finite.eq_zero_of_units {x : Finite} (h : x.units = 0) : x = zero x.negative := by
  obtain ⟨negative, units, hlt, hexact⟩ := x
  subst h
  rfl

theorem Finite.natAbs_toInt (x : Finite) : x.toInt.natAbs = x.units := by
  unfold toInt
  split <;> simp

theorem Finite.toInt_eq_iff {x y : Finite} :
    x.toInt = y.toInt ↔ x = y ∨ ∃ negative, x = zero negative ∧ y = zero !negative := by
  constructor
  · intro h
    have hunits : x.units = y.units := by
      rw [← natAbs_toInt, ← natAbs_toInt, h]
    by_cases hsign : x.negative = y.negative
    · obtain ⟨negative, units, hlt, hexact⟩ := x
      obtain ⟨negative', units', hlt', hexact'⟩ := y
      obtain rfl : negative = negative' := hsign
      obtain rfl : units = units' := hunits
      exact .inl rfl
    · have hother : y.negative = !x.negative := Bool.eq_not_of_ne (Ne.symm hsign)
      have hzero : x.units = 0 := by
        simp only [toInt, hother, hunits] at h
        cases hx : x.negative <;> simp only [hx, Bool.not_true, Bool.not_false,
          Bool.false_eq_true, if_true, if_false] at h <;> omega
      refine .inr ⟨x.negative, eq_zero_of_units hzero, ?_⟩
      rw [← hother]
      exact eq_zero_of_units (hunits.symm.trans hzero)
  · intro h
    rcases h with rfl | ⟨negative, rfl, rfl⟩
    · rfl
    · rw [toInt_zero, toInt_zero]

theorem finite_eq_infinity (x : Finite) (negative : Bool) :
    (finite x).eq (infinity negative) = false := by
  rw [eq_of_key rfl rfl, decide_eq_false_iff_not]
  intro h
  have h := congrArg Int.natAbs h
  have hlt := x.units_lt
  rw [Finite.natAbs_toInt] at h
  split at h <;> simp at h <;> omega

theorem infinity_eq_infinity (negative negative' : Bool) :
    (infinity negative).eq (infinity negative') = (negative == negative') := by
  have hpos := limit_pos
  rw [eq_of_key rfl rfl]
  cases negative <;> cases negative' <;> simp <;> omega

/-- Equal numbers are the same double, or zeros of opposite signs. -/
theorem eq_iff : x.eq y = true ↔ x.isNan = false ∧ (x = y ∨ x.Opposed y) := by
  cases x with
  | nan => simp [eq, holds, key, isNan]
  | infinity negative =>
    cases y with
    | nan => simp [eq, holds, key, Opposed]
    | infinity negative' => simp [infinity_eq_infinity, Opposed, isNan]
    | finite y =>
      rw [eq_comm, finite_eq_infinity]
      simp [Opposed]
  | finite x =>
    cases y with
    | nan => simp [eq, holds, key, Opposed]
    | infinity negative' => simp [finite_eq_infinity, Opposed]
    | finite y =>
      rw [eq_of_key rfl rfl, decide_eq_true_eq, Finite.toInt_eq_iff]
      simp [Opposed, isNan]

end Binary64

namespace Operator

variable {x y : Binary64} {o : Operator}

/-- Of two numbers just one is true: that the one is less, equal, or greater than the other. -/
theorem exists_compare_iff (hx : x.isNan = false) (hy : y.isNan = false) :
    ∃ o ∈ [less, equal, greater], ∀ o' ∈ [less, equal, greater],
      o'.compare x y = true ↔ o' = o := by
  rcases Binary64.lt_trichotomy hx hy with ⟨hlt, heq, hgt⟩ | ⟨hlt, heq, hgt⟩ | ⟨hlt, heq, hgt⟩
  · exact ⟨less, by simp, by simp [compare, hlt, heq, hgt]⟩
  · exact ⟨equal, by simp, by simp [compare, hlt, heq, hgt]⟩
  · exact ⟨greater, by simp, by simp [compare, hlt, heq, hgt]⟩

/-- The operator with its two sides exchanged. -/
def mirrored : Operator → Operator
  | equal => equal
  | less => greater
  | lessOrEqual => greaterOrEqual
  | greater => less
  | greaterOrEqual => lessOrEqual
  | range => range

theorem compare_mirrored (o : Operator) (x y : Binary64) :
    o.mirrored.compare y x = o.compare x y := by
  cases o with
  | equal => exact Binary64.eq_comm y x
  | less | lessOrEqual | greater | greaterOrEqual | range => rfl

theorem mirrored_ne_range (h : o ≠ range) : o.mirrored ≠ range := by
  cases o with
  | range => exact absurd rfl h
  | equal | less | lessOrEqual | greater | greaterOrEqual => simp [mirrored]

end Operator

end Phrasing
