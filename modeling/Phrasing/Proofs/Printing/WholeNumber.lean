import Phrasing.Proofs.Printing.Shortest

/-!
The double nearest to a whole number is whole, and its shortest decimal has no fraction: of the
grids that are searched, one of whole numbers has a neighbour that reads back.
-/

namespace Phrasing

open Binary64

/-- The nearest double of a whole number is a whole number. -/
theorem Binary64.twoPow_scale_dvd_nearestUnits (n : Nat) :
    twoPow scale ∣ nearestUnits n 1 := by
  by_cases h : excess (n * twoPow scale) ≤ scale
  · have hexact : Exact (n * twoPow scale) := Nat.dvd_trans (twoPow_dvd h) (Nat.dvd_mul_left _ _)
    rw [nearestUnits_eq_of_exact hexact Nat.one_pos (Nat.mul_one _).symm]
    exact Nat.dvd_mul_left _ _
  · have hstep : twoPow scale ∣ twoPow (excess (n * twoPow scale / 1)) := by
      rw [Nat.div_one]
      exact twoPow_dvd (by omega)
    exact Nat.dvd_trans hstep (Nat.dvd_mul_left _ _)

namespace Decimal

variable {units n k : Nat} {tie : Tie} {e : Int} {d : Decimal}

theorem exponent_of_onGrid? (h : onGrid? tie units e = some d) : d.exponent = e := by
  unfold onGrid? at h
  dsimp only at h
  split at h
  · cases h
  · cases h
    rfl
  · cases h
    rfl
  · split at h <;> cases h <;> rfl

theorem isSome_onGrid?
    (h : readsAs units ⟨units * tenPow (-e).toNat / (twoPow scale * tenPow e.toNat), e⟩ = true ∨
      readsAs units ⟨units * tenPow (-e).toNat / (twoPow scale * tenPow e.toNat) + 1, e⟩ = true) :
    (onGrid? tie units e).isSome := by
  unfold onGrid?
  dsimp only
  split
  · next hbelow habove => rcases h with h | h <;> simp_all
  · rfl
  · rfl
  · split <;> rfl

theorem le_exponent_search {j : Nat} (hj : j < n) (h : (onGrid? tie units (e - j)).isSome) :
    e - j ≤ (search tie units n e).exponent := by
  induction n generalizing e j with
  | zero => exact absurd hj (Nat.not_lt_zero j)
  | succ n ih =>
    rw [search]
    cases hgrid : onGrid? tie units e with
    | some d =>
      have hexponent := exponent_of_onGrid? hgrid
      rw [Option.getD_some]
      omega
    | none =>
      rw [Option.getD_none]
      cases j with
      | zero =>
        rw [show e - ((0 : Nat) : Int) = e by omega, hgrid] at h
        cases h
      | succ j =>
        have hsucc : e - ((j + 1 : Nat) : Int) = e - 1 - (j : Int) := by omega
        rw [hsucc] at h ⊢
        exact ih (by omega) h

theorem numerator_whole (n k : Nat) : numerator ⟨n, (k : Int)⟩ = n * tenPow k := rfl

theorem denominator_whole (n k : Nat) : denominator ⟨n, (k : Int)⟩ = 1 := by
  rw [denominator, show (-(k : Int)).toNat = 0 by omega]

theorem readsAs_whole (hexact : Exact (n * twoPow scale)) (hlt : n * twoPow scale < limit) :
    readsAs (n * twoPow scale) ⟨n, 0⟩ = true := by
  have hnum : numerator ⟨n, 0⟩ = n := Nat.mul_one n
  have hden : denominator ⟨n, 0⟩ = 1 := rfl
  refine readsAs_iff.2 ⟨hlt, nearestUnits_eq_of_exact hexact (denominator_pos _) ?_⟩
  rw [hnum, hden, Nat.mul_one]

theorem readsAs_above (hexact : Exact (n * twoPow scale)) (hlt : n * twoPow scale < limit)
    (hk : 2 * tenPow k * twoPow scale < twoPow (excess (n * twoPow scale))) :
    readsAs (n * twoPow scale) ⟨n / tenPow k + 1, (k : Int)⟩ = true := by
  have hdiv := Nat.div_add_mod n (tenPow k)
  have hmod := Nat.mod_lt n (tenPow_pos k)
  have hnum : (n / tenPow k + 1) * tenPow k = n + (tenPow k - n % tenPow k) := by
    rw [Nat.add_one_mul, Nat.mul_comm]
    omega
  refine readsAs_iff.2 ⟨hlt, nearestUnits_eq_of_near hexact ?_ ?_⟩
  · rw [numerator_whole, denominator_whole, Nat.mul_one]
    exact Nat.mul_le_mul_right _ (by omega)
  · rw [numerator_whole, denominator_whole, hnum, Nat.mul_one, Nat.one_mul, Nat.add_mul,
      Nat.add_sub_cancel_left, ← Nat.mul_assoc]
    refine Nat.lt_of_le_of_lt (Nat.mul_le_mul_right _ ?_) hk
    omega

theorem tenPow_lt_twoPow {a : Nat} (h : 10 * k < 3 * a) : tenPow k < twoPow a := by
  have hcube : tenPow k ^ 3 < twoPow a ^ 3 := by
    calc tenPow k ^ 3
      _ = (10 ^ 3) ^ k := by rw [← Nat.pow_mul, Nat.mul_comm]; exact (Nat.pow_mul 10 k 3).symm
      _ ≤ (2 ^ 10) ^ k := Nat.pow_le_pow_left (by omega) k
      _ = 2 ^ (10 * k) := (Nat.pow_mul 2 10 k).symm
      _ < 2 ^ (a * 3) := Nat.pow_lt_pow_right (by omega) (by omega)
      _ = twoPow a ^ 3 := Nat.pow_mul 2 a 3
  exact (Nat.pow_lt_pow_iff_left (by omega)).1 hcube

theorem below_whole (n k : Nat) : n * twoPow scale * tenPow (-(k : Int)).toNat /
    (twoPow scale * tenPow (k : Int).toNat) = n / tenPow k := by
  have hnone : tenPow (-(k : Int)).toNat = 1 := by rw [show (-(k : Int)).toNat = 0 by omega]
  rw [hnone, Nat.mul_one, Nat.mul_comm n, Int.toNat_natCast]
  exact Nat.mul_div_mul_left _ _ (twoPow_pos scale)

theorem isSome_onGrid?_ones (hexact : Exact (n * twoPow scale)) (hlt : n * twoPow scale < limit) :
    (onGrid? tie (n * twoPow scale) 0).isSome := by
  refine isSome_onGrid? (.inl ?_)
  have hbelow : n * twoPow scale * tenPow (-(0 : Int)).toNat /
      (twoPow scale * tenPow (0 : Int).toNat) = n := (below_whole n 0).trans (Nat.div_one n)
  rw [hbelow]
  exact readsAs_whole hexact hlt

theorem isSome_onGrid?_tens (hexact : Exact (n * twoPow scale)) (hlt : n * twoPow scale < limit)
    (hk : 2 * tenPow k * twoPow scale < twoPow (excess (n * twoPow scale))) :
    (onGrid? tie (n * twoPow scale) k).isSome := by
  refine isSome_onGrid? (.inr ?_)
  rw [below_whole]
  exact readsAs_above hexact hlt hk

/-- Either the ones are among the grids that are searched, or the last of these is so fine that the
neighbour above is within half a step. -/
theorem isSome_onGrid?_searched (hexact : Exact (n * twoPow scale))
    (hlt : n * twoPow scale < limit) (hn : n ≠ 0) :
    ∃ j < 20, 0 ≤ powerAbove (n * twoPow scale) - (j : Nat) ∧
      (onGrid? tie (n * twoPow scale) (powerAbove (n * twoPow scale) - (j : Nat))).isSome := by
  have hunits : n * twoPow scale ≠ 0 := Nat.mul_ne_zero hn (Nat.ne_of_gt (twoPow_pos _))
  have hlog : (n * twoPow scale).log2 < 1024 + scale := (log2_lt_iff hunits).2 hlt
  have hscale : scale ≤ (n * twoPow scale).log2 :=
    (Nat.le_log2 hunits).2 (Nat.le_mul_of_pos_left _ (Nat.pos_of_ne_zero hn))
  have hpower : powerAbove (n * twoPow scale) =
    (((n * twoPow scale).log2 : Int) + 1 - scale) * 30103 / 100000 + 1 := rfl
  by_cases hsmall : powerAbove (n * twoPow scale) ≤ 19
  · have hones : powerAbove (n * twoPow scale) - ((powerAbove (n * twoPow scale)).toNat : Int) = 0 := by
      omega
    refine ⟨(powerAbove (n * twoPow scale)).toNat, by omega, by omega, ?_⟩
    rw [hones]
    exact isSome_onGrid?_ones hexact hlt
  · obtain ⟨k, hk⟩ := Int.eq_ofNat_of_zero_le
      (show 0 ≤ powerAbove (n * twoPow scale) - ((19 : Nat) : Int) by omega)
    refine ⟨19, by omega, by omega, ?_⟩
    rw [hk]
    refine isSome_onGrid?_tens hexact hlt ?_
    -- three digits are less than ten bits, which is enough up to the limit
    have hten : tenPow k < twoPow ((n * twoPow scale).log2 - scale - 53) :=
      tenPow_lt_twoPow (by omega)
    calc 2 * tenPow k * twoPow scale
      _ < 2 * twoPow ((n * twoPow scale).log2 - scale - 53) * twoPow scale := by
        refine Nat.mul_lt_mul_of_pos_right ?_ (twoPow_pos _)
        exact Nat.mul_lt_mul_of_pos_left hten (by omega)
      _ = twoPow (1 + ((n * twoPow scale).log2 - scale - 53) + scale) := by
        rw [twoPow_add _ scale, twoPow_add 1]
      _ = twoPow (excess (n * twoPow scale)) := by
        unfold excess
        congr 1
        omega

/-- The shortest decimal of a whole number has no fraction. -/
theorem exponent_shortest_nonneg (tie : Tie) (hdvd : twoPow scale ∣ units) (hexact : Exact units)
    (hlt : units < limit) : 0 ≤ (shortest tie units).exponent := by
  unfold shortest
  split
  · exact Int.le_refl 0
  · next hunits =>
    obtain ⟨n, rfl⟩ := hdvd
    rw [Nat.mul_comm] at hunits hexact hlt ⊢
    have hn : n ≠ 0 := by
      intro hzero
      exact hunits (by rw [hzero, Nat.zero_mul])
    obtain ⟨j, hj, hpos, hsome⟩ := isSome_onGrid?_searched hexact hlt hn
    exact Int.le_trans hpos (le_exponent_search hj hsome)

theorem toBinary64_whole_cases (n : Nat) :
    (∃ x : Finite, toBinary64 false ⟨n, 0⟩ = .finite x ∧ x.negative = false ∧
      twoPow scale ∣ x.units) ∨
    toBinary64 false ⟨n, 0⟩ = .infinity false := by
  rcases toBinary64_cases false ⟨n, 0⟩ with ⟨x, hx, hnegative, hunits⟩ | hinfinity
  · refine .inl ⟨x, hx, hnegative, ?_⟩
    rw [hunits, show numerator ⟨n, 0⟩ = n from Nat.mul_one n]
    exact twoPow_scale_dvd_nearestUnits n
  · exact .inr hinfinity

end Decimal

end Phrasing
