import Phrasing.Branch.Basic
import Phrasing.Proofs.Grammar.Numeral
import Phrasing.Proofs.Printing.WholeNumber

/-!
The texts of doubles belong to the grammar of numbers and read back as the doubles they were made
from.
-/

namespace Phrasing.Grammar

open Decimal

variable {layout : Layout} {d : Decimal} {s : List Char} {c : Char} {n : Nat}

theorem whole_toDigits (n : Nat) : Whole (Nat.toDigits 10 n) n := natural?_iff.1 (Numeral.natural?_toDigits n)

theorem Whole.append_zeros (h : Whole s n) (k : Nat) :
    Whole (s ++ List.replicate k '0') (n * tenPow k) := by
  obtain ⟨⟨hne, hdigits⟩, hvalue⟩ := h
  refine ⟨⟨by simp [hne], fun c hc ↦ ?_⟩, ?_⟩
  · rcases List.mem_append.1 hc with hc | hc
    · exact hdigits c hc
    · obtain rfl := List.eq_of_mem_replicate hc
      rfl
  · rw [Nat.ofDigitChars_append, hvalue, Nat.ofDigitChars_replicate_zero, Nat.mul_comm]
    rfl

theorem Whole.unsigned (h : Whole s n) : Unsigned s ⟨n, 0⟩ := by
  have hs := Unsigned.mk h.1.2 .absent (by simpa using h.1.1) .absent
  rw [List.append_nil, List.append_nil, h.2] at hs
  exact hs

theorem Whole.unsigned_point (h : Whole s n) : Unsigned (s ++ ['.', '0']) ⟨n * 10, -1⟩ := by
  have hzero : Whole (s ++ ['0']) (n * 10) := h.append_zeros 1
  have hpoint : Fraction ['.', '0'] ['0'] := .point (List.forall_mem_singleton.2 rfl)
  have hs := Unsigned.mk h.1.2 hpoint hzero.1.1 .absent
  rw [hzero.2] at hs
  exact hs

theorem Whole.unsigned_split (h : Whole s n) (k : Nat) :
    Unsigned (s.take k ++ '.' :: s.drop k) ⟨n, -((s.length - k : Nat) : Int)⟩ := by
  have htake : ∀ c ∈ s.take k, c.isDigit := fun c hc ↦ h.1.2 c (List.mem_of_mem_take hc)
  have hdrop : ∀ c ∈ s.drop k, c.isDigit := fun c hc ↦ h.1.2 c (List.mem_of_mem_drop hc)
  have hs := Unsigned.mk htake (.point hdrop) (by rw [List.take_append_drop]; exact h.1.1) .absent
  rw [List.take_append_drop, h.2, List.length_drop, Int.zero_sub, List.append_nil] at hs
  exact hs

theorem Whole.unsigned_zeros (h : Whole s n) (k : Nat) :
    Unsigned ('0' :: '.' :: (List.replicate k '0' ++ s)) ⟨n, -((k + s.length : Nat) : Int)⟩ := by
  have hdigits : ∀ c ∈ List.replicate k '0' ++ s, c.isDigit := by
    intro c hc
    rcases List.mem_append.1 hc with hc | hc
    · obtain rfl := List.eq_of_mem_replicate hc
      rfl
    · exact h.1.2 c hc
  have hvalue : Nat.ofDigitChars 10 (['0'] ++ (List.replicate k '0' ++ s)) 0 = n := by
    rw [Nat.ofDigitChars_append, Nat.ofDigitChars_append, Nat.ofDigitChars_replicate_zero]
    exact h.2
  have hzero : ∀ c ∈ ['0'], c.isDigit := List.forall_mem_singleton.2 rfl
  have hs := Unsigned.mk hzero (.point hdigits) (by simp) .absent
  rw [hvalue, List.length_append, List.length_replicate, Int.zero_sub, List.append_nil] at hs
  exact hs

theorem Whole.unsigned_power (h : Whole s n) {power : List Char} {e : Int} (hpower : Signed power e) :
    Unsigned (s.take 1 ++ (if s.length ≤ 1 then [] else '.' :: s.drop 1) ++ 'e' :: power)
      ⟨n, e - ((s.length - 1 : Nat) : Int)⟩ := by
  have htake : ∀ c ∈ s.take 1, c.isDigit := fun c hc ↦ h.1.2 c (List.mem_of_mem_take hc)
  have hdrop : ∀ c ∈ s.drop 1, c.isDigit := fun c hc ↦ h.1.2 c (List.mem_of_mem_drop hc)
  have hmark : Power ('e' :: power) e := .mark (.inl rfl) hpower
  have hpoint : Fraction (if s.length ≤ 1 then [] else '.' :: s.drop 1) (s.drop 1) := by
    split
    · next hlen =>
      rw [List.drop_eq_nil_of_le hlen]
      exact .absent
    · exact .point hdrop
  have hs := Unsigned.mk htake hpoint (by rw [List.take_append_drop]; exact h.1.1) hmark
  rw [List.take_append_drop, h.2, List.length_drop, ← List.append_assoc] at hs
  exact hs

theorem signed_powerText (layout : Layout) (e : Int) : Signed (layout.powerText e) e := by
  unfold Layout.powerText
  split
  · next hneg =>
    have hs := Signed.mk .minus (whole_toDigits e.natAbs)
    rw [if_pos rfl, show -(e.natAbs : Int) = e by omega] at hs
    exact hs
  · next hpos =>
    have heq : (e.natAbs : Int) = e := by omega
    split
    · have hs := Signed.mk .plus (whole_toDigits e.natAbs)
      rw [if_neg (by decide), heq] at hs
      exact hs
    · have hs := Signed.mk .absent (whole_toDigits e.natAbs)
      rw [if_neg (by decide), heq] at hs
      exact hs

theorem sameValue_zeros (d : Decimal) (h : 0 ≤ d.exponent) :
    SameValue ⟨d.digits * tenPow d.exponent.toNat, 0⟩ d := by
  have hden : d.denominator = 1 := by rw [denominator, show (-d.exponent).toNat = 0 by omega]
  rw [SameValue, hden]
  exact Nat.mul_one _

theorem sameValue_point (d : Decimal) (h : 0 ≤ d.exponent) :
    SameValue ⟨d.digits * tenPow d.exponent.toNat * 10, -1⟩ d := by
  have hden : d.denominator = 1 := by rw [denominator, show (-d.exponent).toNat = 0 by omega]
  rw [SameValue, hden, Nat.mul_one]
  exact Nat.mul_one _

/-- A decimal is written as a number of the grammar with the same value. -/
theorem exists_unsigned_decimal (layout : Layout) (d : Decimal) :
    ∃ d', Unsigned (layout.decimal d) d' ∧ SameValue d' d := by
  have hdigits := whole_toDigits d.digits
  unfold Layout.decimal
  dsimp only
  split
  · unfold Layout.plain
    split
    · next hexponent =>
      have hzeros := hdigits.append_zeros d.exponent.toNat
      split
      · exact ⟨_, hzeros.unsigned_point, sameValue_point d hexponent⟩
      · rw [List.append_nil]
        exact ⟨_, hzeros.unsigned, sameValue_zeros d hexponent⟩
    · next hexponent =>
      dsimp only
      split
      · next hplaces =>
        refine ⟨d, ?_, rfl⟩
        have hs := hdigits.unsigned_split ((Nat.toDigits 10 d.digits).length - (-d.exponent).toNat)
        rw [show -((_ - _ : Nat) : Int) = d.exponent by omega] at hs
        exact hs
      · next hplaces =>
        refine ⟨d, ?_, rfl⟩
        have hs := hdigits.unsigned_zeros ((-d.exponent).toNat - (Nat.toDigits 10 d.digits).length)
        rw [show -((_ + _ : Nat) : Int) = d.exponent by omega] at hs
        exact hs
  · refine ⟨d, ?_, rfl⟩
    have hlen := List.length_pos_iff.2 hdigits.1.1
    have hs := hdigits.unsigned_power (signed_powerText layout
      (d.exponent + (Nat.toDigits 10 d.digits).length - 1))
    rw [show _ - ((_ - 1 : Nat) : Int) = d.exponent by omega] at hs
    exact hs

theorem sign_sign (negative : Bool) : Sign (Layout.sign negative) negative := by
  cases negative with
  | true => exact .minus
  | false => exact .absent

/-- A finite double reads back from its text. -/
theorem real_finite (layout : Layout) (x : Binary64.Finite) :
    Real (layout.finite x) (.finite x) := by
  obtain ⟨d, hd, hvalue⟩ := exists_unsigned_decimal layout (shortest layout.tie x.units)
  have hreal := Real.mk (sign_sign x.negative) hd
  rw [hvalue.toBinary64_eq, toBinary64_shortest] at hreal
  exact hreal

theorem exists_mark (hpoint : layout.keepsPoint = true) (d : Decimal) :
    ∃ c ∈ layout.decimal d, c = '.' ∨ c = 'e' := by
  unfold Layout.decimal
  dsimp only
  split
  · refine ⟨'.', ?_, .inl rfl⟩
    unfold Layout.plain
    split
    · simp
    · dsimp only
      split <;> simp
  · exact ⟨'e', by simp [Layout.scientific], .inr rfl⟩

/-- A whole double is written in digits only, and they read back. -/
theorem exists_whole_positional {x : Binary64.Finite} (hpositive : x.negative = false)
    (hdvd : twoPow Binary64.scale ∣ x.units) :
    ∃ n, Whole (Layout.positional.finite x) n ∧ Decimal.toBinary64 false ⟨n, 0⟩ = .finite x := by
  have hexponent := exponent_shortest_nonneg .up hdvd x.exact x.units_lt
  have hread := toBinary64_shortest .up x
  have htext : Layout.positional.finite x =
      Layout.positional.plain (Nat.toDigits 10 (shortest .up x.units).digits)
        (shortest .up x.units).exponent := by
    rw [Layout.finite, hpositive]
    rfl
  rw [hpositive] at hread
  generalize shortest .up x.units = d at hexponent hread htext
  refine ⟨d.digits * tenPow d.exponent.toNat, ?_, ?_⟩
  · rw [htext, Layout.plain, if_pos hexponent, Layout.positional, if_neg (by decide),
      List.append_nil]
    exact (whole_toDigits d.digits).append_zeros _
  · rw [(sameValue_zeros d hexponent).toBinary64_eq, hread]

end Phrasing.Grammar
