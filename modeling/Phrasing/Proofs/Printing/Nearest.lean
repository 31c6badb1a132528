import Phrasing.Decimal.Rounding

/-!
Rounding to the nearest double: it depends on the value of a quotient only, and a quotient close
enough to an exact number of units is rounded to it.
-/

namespace Phrasing.Binary64

variable {num den num' den' k n d units : Nat} {negative : Bool}

theorem roundHalfEven_mul_left (hk : 0 < k) (num den : Nat) :
    roundHalfEven (k * num) (k * den) = roundHalfEven num den := by
  have hleft : 2 * (k * (num % den)) < k * den ↔ 2 * (num % den) < den := by
    rw [Nat.mul_left_comm]
    exact Nat.mul_lt_mul_left hk
  have hright : k * den < 2 * (k * (num % den)) ↔ den < 2 * (num % den) := by
    rw [Nat.mul_left_comm 2]
    exact Nat.mul_lt_mul_left hk
  simp only [roundHalfEven, Nat.mul_div_mul_left _ _ hk, Nat.mul_mod_mul_left, hleft, hright]

theorem nearestUnits_mul_left (hk : 0 < k) (num den : Nat) :
    nearestUnits (k * num) (k * den) = nearestUnits num den := by
  simp only [nearestUnits, Nat.mul_assoc k, Nat.mul_div_mul_left _ _ hk, roundHalfEven_mul_left hk]

theorem nearestUnits_eq_of_mul_eq (hden : 0 < den) (hden' : 0 < den')
    (h : num * den' = num' * den) : nearestUnits num den = nearestUnits num' den' := by
  calc nearestUnits num den
    _ = nearestUnits (den' * num) (den' * den) := (nearestUnits_mul_left hden' num den).symm
    _ = nearestUnits (den * num') (den * den') := by
      rw [Nat.mul_comm den' num, h, Nat.mul_comm num' den, Nat.mul_comm den' den]
    _ = nearestUnits num' den' := nearestUnits_mul_left hden num' den'

theorem roundHalfEven_eq_of_near (hle : k * d ≤ n) (hlt : 2 * (n - k * d) < d) :
    roundHalfEven n d = k := by
  have hquotient : n / d = k := by
    apply Nat.div_eq_of_lt_le hle
    rw [Nat.add_one_mul]
    omega
  have hrest : n % d = n - k * d := by
    have hdiv := Nat.div_add_mod n d
    rw [hquotient, Nat.mul_comm] at hdiv
    omega
  simp only [roundHalfEven, hquotient, hrest, if_pos hlt]

theorem twoPow_excess_dvd (h : Exact units) : twoPow (excess units) ∣ units := h

theorem excess_eq (h : Exact units) (hle : units ≤ n) (hlt : n < units + twoPow (excess units)) :
    excess n = excess units := by
  obtain ⟨m, hm⟩ := twoPow_excess_dvd h
  -- the next multiple of the step is at most a power of two, where a step ends
  have hm53 : m < twoPow 53 := by
    have hunits := lt_twoPow_excess units
    rw [twoPow_add, Nat.mul_comm (twoPow 53)] at hunits
    exact Nat.lt_of_mul_lt_mul_left (Nat.lt_of_le_of_lt (Nat.le_of_eq hm.symm) hunits)
  have hnext : units + twoPow (excess units) ≤ twoPow (53 + excess units) := by
    calc units + twoPow (excess units)
      _ = twoPow (excess units) * (m + 1) := by rw [Nat.mul_add_one, ← hm]
      _ ≤ twoPow (excess units) * twoPow 53 := Nat.mul_le_mul_left _ hm53
      _ = twoPow (53 + excess units) := by rw [twoPow_add, Nat.mul_comm]
  have hupper : excess n ≤ excess units := by
    by_cases hn : n = 0
    · rw [hn]
      exact Nat.zero_le _
    · have hlog : n.log2 < 53 + excess units := (log2_lt_iff hn).2 (Nat.lt_of_lt_of_le hlt hnext)
      rw [excess]
      omega
  have hlower : excess units ≤ excess n := by
    by_cases hunits : units = 0
    · rw [hunits]
      exact Nat.zero_le _
    · have hpow : twoPow units.log2 ≤ n := Nat.le_trans (Nat.log2_self_le hunits) hle
      have hlog : units.log2 ≤ n.log2 := (Nat.le_log2 (by omega)).2 hpow
      unfold excess
      omega
  omega

/-- A quotient less than half a step above an exact number of units is rounded down to it. -/
theorem nearestUnits_eq_of_near (h : Exact units) (hle : units * den ≤ num * twoPow scale)
    (hlt : 2 * (num * twoPow scale - units * den) < den * twoPow (excess units)) :
    nearestUnits num den = units := by
  have hden : 0 < den := by
    refine Nat.pos_of_ne_zero fun hzero ↦ ?_
    rw [hzero, Nat.zero_mul] at hlt
    exact Nat.not_lt_zero _ hlt
  have hexcess : excess (num * twoPow scale / den) = excess units := by
    refine excess_eq h ((Nat.le_div_iff_mul_le hden).2 hle) ((Nat.div_lt_iff_lt_mul hden).2 ?_)
    rw [Nat.add_mul, Nat.mul_comm (twoPow (excess units))]
    omega
  obtain ⟨m, hm⟩ := twoPow_excess_dvd h
  rw [Nat.mul_comm] at hm
  have hround : roundHalfEven (num * twoPow scale) (den * twoPow (excess units)) = m := by
    have hproduct : m * (den * twoPow (excess units)) = units * den := by
      rw [Nat.mul_comm den, ← Nat.mul_assoc, ← hm]
    apply roundHalfEven_eq_of_near
    · rw [hproduct]
      exact hle
    · rw [hproduct]
      exact hlt
  rw [nearestUnits, hexcess, hround]
  exact hm.symm

theorem nearestUnits_eq_of_exact (h : Exact units) (hden : 0 < den)
    (heq : num * twoPow scale = units * den) : nearestUnits num den = units := by
  apply nearestUnits_eq_of_near h (Nat.le_of_eq heq.symm)
  rw [heq, Nat.sub_self]
  exact Nat.mul_pos hden (twoPow_pos _)

theorem twoPow_le_nearestUnits {e : Nat} (hle : twoPow e * den ≤ num * twoPow scale)
    (hden : 0 < den) : twoPow e ≤ nearestUnits num den := by
  have hq : twoPow e ≤ num * twoPow scale / den := (Nat.le_div_iff_mul_le hden).2 hle
  have hround := le_roundHalfEven (num * twoPow scale)
    (den * twoPow (excess (num * twoPow scale / den)))
  rw [← Nat.div_div_eq_div_mul] at hround
  rw [nearestUnits]
  generalize num * twoPow scale / den = q at hq hround ⊢
  have hpos : q ≠ 0 := Nat.ne_of_gt (Nat.lt_of_lt_of_le (twoPow_pos e) hq)
  have hlog : e ≤ q.log2 := (Nat.le_log2 hpos).2 hq
  have hdvd : twoPow (excess q) ∣ twoPow q.log2 := twoPow_dvd (Nat.sub_le _ _)
  calc twoPow e
    _ ≤ twoPow q.log2 := twoPow_le hlog
    _ = twoPow q.log2 / twoPow (excess q) * twoPow (excess q) := (Nat.div_mul_cancel hdvd).symm
    _ ≤ q / twoPow (excess q) * twoPow (excess q) :=
      Nat.mul_le_mul_right _ (Nat.div_le_div_right (Nat.log2_self_le hpos))
    _ ≤ _ := Nat.mul_le_mul_right _ hround

theorem nearestUnits_eq_zero (h : 2 * (num * twoPow scale) < den) : nearestUnits num den = 0 := by
  refine nearestUnits_eq_of_near ⟨0, rfl⟩ (by omega) ?_
  rw [Nat.zero_mul, Nat.sub_zero]
  exact Nat.lt_of_lt_of_le h (Nat.le_mul_of_pos_right _ (twoPow_pos _))

theorem nearest_eq_finite (x : Finite) (h : nearestUnits num den = x.units) :
    nearest x.negative num den = finite x := by
  have hlt : nearestUnits num den < limit := Nat.lt_of_le_of_lt (Nat.le_of_eq h) x.units_lt
  rw [nearest, ofUnits, dif_pos hlt]
  simp only [h]

theorem nearest_eq_infinity (h : limit ≤ nearestUnits num den) :
    nearest negative num den = infinity negative := by
  rw [nearest, ofUnits, dif_neg (Nat.not_lt.2 h)]

end Phrasing.Binary64
