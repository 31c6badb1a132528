import Phrasing.Binary64.Rounding

/-!
The bits of doubles: a sign, eleven bits of exponent and 52 of fraction. Doubles with the same bits
are the same, those that are not a number included.
-/

namespace Phrasing.Binary64

/-- The bits of a number of units: the exponent counts the low bits that were dropped, and the
leading bit of the rest, which is not stored apart, adds one to it. -/
def unitBits (units : Nat) : Nat := excess units * twoPow 52 + units / twoPow (excess units)

def infiniteBits : Nat := 2047 * twoPow 52

def isNegative : Binary64 → Bool
  | finite x => x.negative
  | infinity negative => negative
  | nan x => x.negative

/-- The bits after the sign. Infinity has all bits of the exponent and no fraction; what is not a
number has a fraction after these. -/
def magnitude : Binary64 → Nat
  | finite x => unitBits x.units
  | infinity _ => infiniteBits
  | nan x => infiniteBits + x.fraction

def bits (x : Binary64) : Nat := (if x.isNegative then twoPow 63 else 0) + x.magnitude

example : (ofInt (-2)).bits = 0xc000000000000000 := by decide +kernel

example : (nan (.quiet true)).bits = 0xfff8000000000000 := by decide +kernel

variable {m n : Nat} {x y : Binary64}

theorem le_div_excess (h : 0 < excess n) : twoPow 52 ≤ n / twoPow (excess n) := by
  have hn : n ≠ 0 := by
    intro hzero
    subst hzero
    exact absurd h (by decide)
  have hlog : n.log2 = 52 + excess n := by
    unfold excess at h ⊢
    omega
  rw [Nat.le_div_iff_mul_le (twoPow_pos _), ← twoPow_add, ← hlog]
  exact Nat.log2_self_le hn

theorem unitBits_lt_of_excess (h : excess m < excess n) : unitBits m < unitBits n := by
  have hdouble : twoPow 53 = 2 * twoPow 52 := rfl
  have hm := div_excess_lt m
  have hn := le_div_excess (n := n) (by omega)
  have hmul : (excess m + 1) * twoPow 52 ≤ excess n * twoPow 52 := Nat.mul_le_mul_right _ h
  rw [Nat.add_mul] at hmul
  unfold unitBits
  omega

theorem unitBits_inj (hm : Exact m) (hn : Exact n) (h : unitBits m = unitBits n) : m = n := by
  rcases Nat.lt_trichotomy (excess m) (excess n) with hlt | heq | hlt
  · exact absurd h (Nat.ne_of_lt (unitBits_lt_of_excess hlt))
  · change twoPow (excess m) ∣ m at hm
    unfold unitBits at h
    rw [heq] at h hm
    exact (Nat.div_left_inj hm hn).1 (Nat.add_left_cancel h)
  · exact absurd h (Nat.ne_of_gt (unitBits_lt_of_excess hlt))

theorem unitBits_lt (h : n < limit) : unitBits n < infiniteBits := by
  have hdouble : twoPow 53 = 2 * twoPow 52 := rfl
  have hexcess : excess n ≤ 2045 := by
    by_cases hzero : n = 0
    · subst hzero
      decide
    · have hlog := (log2_lt_iff hzero).2 h
      unfold excess scale at *
      omega
  have hmul : excess n * twoPow 52 ≤ 2045 * twoPow 52 := Nat.mul_le_mul_right _ hexcess
  have hlt := div_excess_lt n
  unfold unitBits infiniteBits
  omega

theorem magnitude_lt (x : Binary64) : x.magnitude < twoPow 63 := by
  cases x with
  | finite x => exact Nat.lt_trans (unitBits_lt x.units_lt) (by decide)
  | infinity => exact (by decide : infiniteBits < twoPow 63)
  | nan x =>
    have hlimit : infiniteBits + twoPow 52 = twoPow 63 := by decide
    exact hlimit ▸ Nat.add_lt_add_left x.fraction_lt _

theorem infinite_ne_nan (x : Nan) : infiniteBits ≠ infiniteBits + x.fraction :=
  Nat.ne_of_lt (Nat.lt_add_of_pos_right x.fraction_pos)

theorem eq_of_magnitude (hsign : x.isNegative = y.isNegative) (h : x.magnitude = y.magnitude) :
    x = y := by
  have hinfinite (x : Finite) : unitBits x.units ≠ infiniteBits := Nat.ne_of_lt (unitBits_lt x.units_lt)
  have hnan (x : Finite) (y : Nan) : unitBits x.units ≠ infiniteBits + y.fraction :=
    Nat.ne_of_lt (Nat.lt_add_right _ (unitBits_lt x.units_lt))
  cases x with
  | finite x =>
    cases y with
    | finite y =>
      obtain ⟨negative, units, hlt, hexact⟩ := x
      obtain ⟨negative', units', hlt', hexact'⟩ := y
      obtain rfl : negative = negative' := hsign
      obtain rfl : units = units' := unitBits_inj hexact hexact' h
      rfl
    | infinity => exact absurd h (hinfinite x)
    | nan y => exact absurd h (hnan x y)
  | infinity =>
    cases y with
    | finite y => exact absurd h.symm (hinfinite y)
    | infinity => exact congrArg infinity hsign
    | nan y => exact absurd h (infinite_ne_nan y)
  | nan x =>
    cases y with
    | finite y => exact absurd h.symm (hnan y x)
    | infinity => exact absurd h.symm (infinite_ne_nan x)
    | nan y =>
      obtain ⟨negative, fraction, hpos, hlt⟩ := x
      obtain ⟨negative', fraction', hpos', hlt'⟩ := y
      obtain rfl : negative = negative' := hsign
      obtain rfl : fraction = fraction' := Nat.add_left_cancel h
      rfl

theorem bits_lt (x : Binary64) : x.bits < twoPow 64 := by
  have hdouble : twoPow 64 = twoPow 63 + twoPow 63 := rfl
  have hlt := magnitude_lt x
  unfold bits
  split <;> omega

theorem bits_inj (h : x.bits = y.bits) : x = y := by
  have hx := magnitude_lt x
  have hy := magnitude_lt y
  unfold bits at h
  cases hxs : x.isNegative <;> cases hys : y.isNegative <;>
    simp only [hxs, hys, Bool.false_eq_true, if_true, if_false] at h
  · exact eq_of_magnitude (hxs.trans hys.symm) (by omega)
  · omega
  · omega
  · exact eq_of_magnitude (hxs.trans hys.symm) (by omega)

end Phrasing.Binary64
