import Phrasing.Decimal.Shortest
import Phrasing.Proofs.Printing.Nearest

/-!
The shortest decimal of a double reads back as it, and that of a whole number has no fraction.
-/

namespace Phrasing.Decimal

open Binary64

variable {d d' : Decimal} {units n : Nat} {tie : Tie} {e : Int} {negative : Bool}

theorem denominator_pos (d : Decimal) : 0 < d.denominator := tenPow_pos _

theorem twoPow_three_mul_le (k : Nat) : twoPow (3 * k) ≤ tenPow k := by
  rw [show twoPow (3 * k) = (2 ^ 3) ^ k from Nat.pow_mul 2 3 k]
  exact Nat.pow_le_pow_left (by omega) k

theorem limit_le_of_tooLarge (hdigits : d.digits ≠ 0) (h : d.tooLarge) :
    limit ≤ nearestUnits d.numerator d.denominator := by
  have hexponent : 1024 ≤ 3 * d.exponent := of_decide_eq_true h
  refine twoPow_le_nearestUnits ?_ d.denominator_pos
  have hden : d.denominator = 1 := by
    rw [denominator, show (-d.exponent).toNat = 0 by omega]
  rw [hden, Nat.mul_one, twoPow_add]
  apply Nat.mul_le_mul_right
  calc twoPow 1024
    _ ≤ twoPow (3 * d.exponent.toNat) := twoPow_le (by omega)
    _ ≤ tenPow d.exponent.toNat := twoPow_three_mul_le _
    _ ≤ d.numerator := Nat.le_mul_of_pos_left _ (Nat.pos_of_ne_zero hdigits)

theorem eq_zero_of_tooSmall (h : d.tooSmall) : nearestUnits d.numerator d.denominator = 0 := by
  have hexponent : (d.digits.log2 : Int) + 1076 ≤ 3 * -d.exponent := of_decide_eq_true h
  have hscale : scale = 1074 := by with_unfolding_all rfl
  apply nearestUnits_eq_zero
  have hnum : d.numerator = d.digits := by
    rw [numerator, show d.exponent.toNat = 0 by omega]
    exact Nat.mul_one _
  rw [hnum]
  calc 2 * (d.digits * twoPow scale)
    _ < 2 * (twoPow (d.digits.log2 + 1) * twoPow scale) := by
      refine Nat.mul_lt_mul_of_pos_left ?_ (by omega)
      exact Nat.mul_lt_mul_of_pos_right Nat.lt_log2_self (twoPow_pos _)
    _ = twoPow (1 + (d.digits.log2 + 1 + scale)) := by
      rw [twoPow_add 1, twoPow_add (d.digits.log2 + 1)]
    _ ≤ twoPow (3 * (-d.exponent).toNat) := twoPow_le (by omega)
    _ ≤ d.denominator := twoPow_three_mul_le _

theorem eq_zero_of_digits (h : d.digits = 0) : nearestUnits d.numerator d.denominator = 0 := by
  apply nearestUnits_eq_zero
  rw [numerator, h, Nat.zero_mul, Nat.zero_mul, Nat.mul_zero]
  exact d.denominator_pos

/-- The shortcuts for far powers of ten are only shortcuts. -/
theorem toBinary64_eq_nearest (negative : Bool) (d : Decimal) :
    d.toBinary64 negative = nearest negative d.numerator d.denominator := by
  -- a shortcut is taken only where rounding ends in zero or at the limit as well
  unfold toBinary64
  split
  · next h =>
    have hzero : nearestUnits d.numerator d.denominator = 0 := by
      rcases Bool.or_eq_true_iff.1 h with hdigits | hsmall
      · exact eq_zero_of_digits (of_decide_eq_true hdigits)
      · exact eq_zero_of_tooSmall hsmall
    exact (nearest_eq_finite (.zero negative) hzero).symm
  · next h =>
    have hdigits : d.digits ≠ 0 := by
      intro hzero
      simp [hzero] at h
    split
    · next hlarge => exact (nearest_eq_infinity (limit_le_of_tooLarge hdigits hlarge)).symm
    · rfl

theorem toBinary64_cases (negative : Bool) (d : Decimal) :
    (∃ x : Finite, d.toBinary64 negative = .finite x ∧ x.negative = negative ∧
      x.units = nearestUnits d.numerator d.denominator) ∨
    d.toBinary64 negative = .infinity negative := by
  rw [toBinary64_eq_nearest, nearest, ofUnits]
  split
  · exact .inl ⟨_, rfl, rfl, rfl⟩
  · exact .inr rfl

def SameValue (d d' : Decimal) : Prop := d.numerator * d'.denominator = d'.numerator * d.denominator

theorem SameValue.toBinary64_eq (h : SameValue d d') (negative : Bool) :
    d.toBinary64 negative = d'.toBinary64 negative := by
  have hunits := nearestUnits_eq_of_mul_eq d.denominator_pos d'.denominator_pos h
  simp only [toBinary64_eq_nearest, nearest, hunits]

theorem readsAs_iff : readsAs units d = true ↔
    units < limit ∧ nearestUnits d.numerator d.denominator = units := by
  rw [readsAs, toBinary64_eq_nearest, nearest, ofUnits]
  split
  · next x hx =>
    split at hx
    · next hlt =>
      cases hx
      rw [beq_iff_eq]
      constructor
      · intro h
        exact ⟨h ▸ hlt, h⟩
      · exact And.right
    · cases hx
  · next hx =>
    split at hx
    · exact absurd rfl (hx _)
    · next hlt =>
      constructor
      · intro h
        cases h
      · intro h
        obtain ⟨hunits, rfl⟩ := h
        exact absurd hunits hlt

/-- The sign is no part of what is rounded. -/
theorem toBinary64_of_readsAs {x : Finite} (h : readsAs x.units d = true) :
    d.toBinary64 x.negative = .finite x := by
  rw [toBinary64_eq_nearest, nearest_eq_finite x (readsAs_iff.1 h).2]

theorem readsAs_exactly (h : Exact units) (hlt : units < limit) :
    readsAs units (exactly units) = true := by
  refine readsAs_iff.2 ⟨hlt, nearestUnits_eq_of_exact h (denominator_pos _) ?_⟩
  have hten : Nat.pow 5 scale * twoPow scale = tenPow scale := (Nat.mul_pow 5 2 scale).symm
  have hnum : (exactly units).numerator = units * Nat.pow 5 scale := by
    rw [numerator, exactly, show (-(scale : Int)).toNat = 0 by omega]
    exact Nat.mul_one _
  have hden : (exactly units).denominator = tenPow scale := by
    rw [denominator, exactly, show (-(-(scale : Int))).toNat = scale by omega]
  rw [hnum, hden, Nat.mul_assoc, hten]

theorem readsAs_search (h : Exact units) (hlt : units < limit) (n : Nat) (e : Int) :
    readsAs units (search tie units n e) = true := by
  induction n generalizing e with
  | zero => exact readsAs_exactly h hlt
  | succ n ih =>
    rw [search]
    cases hgrid : onGrid? tie units e with
    | none => exact ih (e - 1)
    | some d => exact onGrid?_readsAs hgrid

theorem readsAs_shortest (tie : Tie) (x : Finite) :
    readsAs x.units (shortest tie x.units) = true := by
  unfold shortest
  split
  · next hzero =>
    rw [hzero]
    exact readsAs_iff.2 ⟨limit_pos, eq_zero_of_digits rfl⟩
  · exact readsAs_search x.exact x.units_lt _ _

theorem toBinary64_shortest (tie : Tie) (x : Finite) :
    (shortest tie x.units).toBinary64 x.negative = .finite x :=
  toBinary64_of_readsAs (readsAs_shortest tie x)

end Phrasing.Decimal
