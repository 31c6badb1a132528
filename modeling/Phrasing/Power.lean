/-!
Powers of two and of ten.
-/

namespace Phrasing

abbrev twoPow (e : Nat) : Nat := Nat.pow 2 e

abbrev tenPow (e : Nat) : Nat := Nat.pow 10 e

theorem twoPow_pos (e : Nat) : 0 < twoPow e := Nat.two_pow_pos e

theorem tenPow_pos (e : Nat) : 0 < tenPow e := Nat.pow_pos (by omega)

theorem twoPow_add (d e : Nat) : twoPow (d + e) = twoPow d * twoPow e := Nat.pow_add 2 d e

theorem twoPow_dvd {d e : Nat} (h : d ≤ e) : twoPow d ∣ twoPow e := Nat.pow_dvd_pow 2 h

theorem twoPow_le {d e : Nat} (h : d ≤ e) : twoPow d ≤ twoPow e :=
  Nat.pow_le_pow_right (by omega) h

theorem log2_twoPow (e : Nat) : (twoPow e).log2 = e := Nat.log2_two_pow

theorem log2_lt_iff {n e : Nat} (h : n ≠ 0) : n.log2 < e ↔ n < twoPow e := Nat.log2_lt h

end Phrasing
