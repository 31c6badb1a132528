import Phrasing.Binary64.Basic

/-!
Rounding to the nearest double.

A quotient is rounded to 53 significant bits (fewer below the smallest normal number), a tie going
to the even neighbour; what reaches the limit is infinite.
-/

namespace Phrasing.Binary64

/-- The whole number nearest to `num / den`, a tie going to the even one. -/
def roundHalfEven (num den : Nat) : Nat :=
  let quotient := num / den
  let twice := 2 * (num % den)
  if twice < den then quotient
  else if den < twice then quotient + 1
  else quotient + quotient % 2

/-- The number of low bits that a double has to drop of the whole number `n`. -/
def excess (n : Nat) : Nat := n.log2 - 52

/-- The units of the double nearest to `num / den`, with no upper limit. -/
def nearestUnits (num den : Nat) : Nat :=
  let scaled := num * twoPow scale
  let step := twoPow (excess (scaled / den))
  roundHalfEven scaled (den * step) * step

theorem roundHalfEven_le (num den : Nat) : roundHalfEven num den ≤ num / den + 1 := by
  unfold roundHalfEven
  dsimp only
  have h := Nat.mod_lt (num / den) (show 0 < 2 by omega)
  split
  · omega
  · split <;> omega

theorem le_roundHalfEven (num den : Nat) : num / den ≤ roundHalfEven num den := by
  unfold roundHalfEven
  dsimp only
  split
  · omega
  · split <;> omega

theorem exact_twoPow (e : Nat) : Exact (twoPow e) := by
  rw [Exact, log2_twoPow]
  exact twoPow_dvd (by omega)

theorem exact_mul_twoPow {k : Nat} (h : k ≤ twoPow 53) (e : Nat) : Exact (k * twoPow e) := by
  rcases Nat.eq_or_lt_of_le h with rfl | hlt
  · rw [← twoPow_add]
    exact exact_twoPow _
  by_cases hk : k = 0
  · rw [hk, Nat.zero_mul]
    exact Nat.dvd_zero _
  · have hne : k * twoPow e ≠ 0 := Nat.ne_of_gt (Nat.mul_pos (by omega) (twoPow_pos e))
    have hbits : k * twoPow e < twoPow (53 + e) := by
      rw [twoPow_add]
      exact Nat.mul_lt_mul_of_pos_right hlt (twoPow_pos e)
    have hlog : (k * twoPow e).log2 < 53 + e := (log2_lt_iff hne).2 hbits
    exact Nat.dvd_trans (twoPow_dvd (by omega)) (Nat.dvd_mul_left _ _)

theorem lt_twoPow_excess (n : Nat) : n < twoPow (53 + excess n) := by
  refine Nat.lt_of_lt_of_le Nat.lt_log2_self (twoPow_le ?_)
  unfold excess
  omega

/-- What is left of a whole number when a double drops its low bits. -/
theorem div_excess_lt (n : Nat) : n / twoPow (excess n) < twoPow 53 := by
  have hn := lt_twoPow_excess n
  rw [twoPow_add] at hn
  exact (Nat.div_lt_iff_lt_mul (twoPow_pos _)).2 hn

/-- Rounding leaves at most 53 significant bits. -/
theorem exact_nearestUnits (num den : Nat) : Exact (nearestUnits num den) := by
  unfold nearestUnits
  dsimp only
  generalize num * twoPow scale = scaled
  have hle := roundHalfEven_le scaled (den * twoPow (excess (scaled / den)))
  rw [← Nat.div_div_eq_div_mul] at hle
  have hlt := div_excess_lt (scaled / den)
  exact exact_mul_twoPow (by omega) _

/-- The double of that many units, infinite from the limit on. -/
def ofUnits (negative : Bool) (units : Nat) (exact : Exact units) : Binary64 :=
  if h : units < limit then finite ⟨negative, units, h, exact⟩ else infinity negative

def nearest (negative : Bool) (num den : Nat) : Binary64 :=
  ofUnits negative (nearestUnits num den) (exact_nearestUnits num den)

/-- The double nearest to a whole number. -/
def ofInt (n : Int) : Binary64 := nearest (decide (n < 0)) n.natAbs 1

end Phrasing.Binary64
