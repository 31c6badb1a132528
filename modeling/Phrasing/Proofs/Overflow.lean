import Phrasing.Proofs.Printing.Shortest

/-!
Where doubles end: a number is rounded to infinity just from halfway between the greatest double and
`2 ^ 1024` on.
-/

namespace Phrasing

namespace Binary64

variable {num den k n d e q : Nat} {negative : Bool}

/-- Half a step below `2 ^ 1024`, the least number that is rounded to infinity. -/
def overflow : Nat := (twoPow 54 - 1) * twoPow 970

theorem mul_lt_iff_of_rest (n d k : Nat) :
    2 * n < (2 * k + 1) * d ↔ 2 * (d * (n / d)) + 2 * (n % d) < 2 * (k * d) + d := by
  have hdiv := Nat.div_add_mod n d
  rw [Nat.add_mul, Nat.mul_assoc, Nat.one_mul]
  omega

/-- What is rounded below an even number is what lies below half a unit before it: a tie goes up. -/
theorem roundHalfEven_le_iff_of_odd (hd : 0 < d) (hk : k % 2 = 1) :
    roundHalfEven n d ≤ k ↔ 2 * n < (2 * k + 1) * d := by
  rw [mul_lt_iff_of_rest]
  have hrest := Nat.mod_lt n hd
  rcases Nat.lt_trichotomy (n / d) k with hlt | heq | hgt
  · have hround := roundHalfEven_le n d
    have hproduct : d * (n / d) + d ≤ k * d := by
      rw [← Nat.mul_add_one, Nat.mul_comm d]
      exact Nat.mul_le_mul_right d hlt
    omega
  · simp only [roundHalfEven, heq, Nat.mul_comm d]
    split
    · omega
    · split <;> omega
  · have hround := le_roundHalfEven n d
    have hproduct : k * d + d ≤ d * (n / d) := by
      rw [← Nat.add_one_mul, Nat.mul_comm d]
      exact Nat.mul_le_mul_right d hgt
    omega

theorem nearestUnits_le_twoPow (h : num * twoPow scale / den < twoPow e) :
    nearestUnits num den ≤ twoPow e := by
  have hround := roundHalfEven_le (num * twoPow scale)
    (den * twoPow (excess (num * twoPow scale / den)))
  rw [← Nat.div_div_eq_div_mul] at hround
  rw [nearestUnits]
  generalize num * twoPow scale / den = q at h hround ⊢
  have hexcess : excess q ≤ e := by
    by_cases hq : q = 0
    · rw [hq]
      exact Nat.zero_le e
    · have hlog := (log2_lt_iff hq).2 h
      unfold excess
      omega
  have hsplit : twoPow e = twoPow (e - excess q) * twoPow (excess q) := by
    rw [← twoPow_add, Nat.sub_add_cancel hexcess]
  have hquotient : q / twoPow (excess q) < twoPow (e - excess q) := by
    rw [Nat.div_lt_iff_lt_mul (twoPow_pos _), ← hsplit]
    exact h
  rw [hsplit]
  exact Nat.mul_le_mul_right _ (by omega)

/-- The same bound in units, where a step below the limit is `2 ^ 971`. -/
theorem lt_overflow_iff (num den : Nat) : num < overflow * den ↔
    2 * (num * twoPow scale) < (2 * (twoPow 53 - 1) + 1) * (den * twoPow (971 + scale)) := by
  have hodd : 2 * (twoPow 53 - 1) + 1 = twoPow 54 - 1 := by decide
  have hstep : twoPow (971 + scale) = 2 * (twoPow 970 * twoPow scale) := by
    rw [← twoPow_add, show 971 + scale = 1 + (970 + scale) by omega, twoPow_add 1]
  have hproduct : (twoPow 54 - 1) * (den * twoPow (971 + scale)) =
      2 * (overflow * den * twoPow scale) := by
    rw [hstep, overflow]
    generalize twoPow 54 - 1 = ones
    generalize twoPow 970 = half
    ac_rfl
  rw [hodd, hproduct, Nat.mul_lt_mul_left (by omega), Nat.mul_lt_mul_right (twoPow_pos scale)]

theorem div_lt_iff_steps (hden : 0 < den) (e : Nat) :
    num * twoPow scale / den < twoPow (e + (971 + scale)) ↔
      num * twoPow scale < twoPow e * (den * twoPow (971 + scale)) := by
  rw [Nat.div_lt_iff_lt_mul hden, twoPow_add, Nat.mul_assoc, Nat.mul_comm den]

/-- A quotient is rounded below the limit just when it is below the least number that is not. -/
theorem nearestUnits_lt_limit_iff (hden : 0 < den) :
    nearestUnits num den < limit ↔ num < overflow * den := by
  have hlimit : limit = twoPow (53 + (971 + scale)) := by
    rw [limit]
    congr 1
    omega
  have hhalf : twoPow (52 + (971 + scale)) < limit := by
    rw [hlimit]
    exact Nat.pow_lt_pow_right (by omega) (by omega)
  have hsteps : twoPow 53 = 2 * twoPow 52 ∧ 0 < twoPow 52 := by decide
  rw [lt_overflow_iff]
  rcases Nat.lt_or_ge (num * twoPow scale / den) (twoPow (52 + (971 + scale))) with hlow | hhigh
  · have hround := Nat.lt_of_le_of_lt (nearestUnits_le_twoPow hlow) hhalf
    have hvalue := (div_lt_iff_steps hden 52).1 hlow
    refine iff_of_true hround (Nat.lt_of_lt_of_le (Nat.mul_lt_mul_of_pos_left hvalue (by omega)) ?_)
    rw [← Nat.mul_assoc 2]
    exact Nat.mul_le_mul_right _ (by omega)
  rcases Nat.lt_or_ge (num * twoPow scale / den) limit with hlt | hge
  · -- the last numbers before the limit, where a step is `2 ^ 971`
    have hexcess : excess (num * twoPow scale / den) = 971 + scale := by
      have hne : num * twoPow scale / den ≠ 0 :=
        Nat.ne_of_gt (Nat.lt_of_lt_of_le (twoPow_pos _) hhigh)
      have hupper := (log2_lt_iff hne).2 hlt
      have hlower := (Nat.le_log2 hne).2 hhigh
      unfold excess
      omega
    rw [nearestUnits, hexcess, hlimit, twoPow_add 53, Nat.mul_lt_mul_right (twoPow_pos _),
      ← roundHalfEven_le_iff_of_odd (Nat.mul_pos hden (twoPow_pos _)) (by decide)]
    omega
  · have hround : limit ≤ nearestUnits num den :=
      twoPow_le_nearestUnits ((Nat.le_div_iff_mul_le hden).1 hge) hden
    rw [hlimit] at hge
    have hvalue := Nat.not_lt.1 (mt (div_lt_iff_steps hden 53).2 (Nat.not_lt.2 hge))
    refine iff_of_false (Nat.not_lt.2 hround) (Nat.not_lt.2 ?_)
    refine Nat.le_trans ?_ (Nat.mul_le_mul_left 2 hvalue)
    rw [← Nat.mul_assoc 2]
    exact Nat.mul_le_mul_right _ (by omega)

end Binary64

/-- A decimal is rounded to a finite double just when it is below the least number that is not. -/
theorem Decimal.isFinite_toBinary64_iff (negative : Bool) (d : Decimal) :
    (d.toBinary64 negative).isFinite = true ↔
      d.numerator < Binary64.overflow * d.denominator := by
  rw [← Binary64.nearestUnits_lt_limit_iff d.denominator_pos, toBinary64_eq_nearest,
    Binary64.nearest, Binary64.ofUnits]
  split
  · next hlt => simp [Binary64.isFinite, hlt]
  · next hge => simp [Binary64.isFinite, hge]

end Phrasing
