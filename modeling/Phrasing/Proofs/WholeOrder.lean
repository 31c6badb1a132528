import Phrasing.Proofs.NumericOrder
import Phrasing.Proofs.Overflow

/-!
Whole numbers are compared as doubles. Rounding keeps their order, so a comparison never turns it
around, and up to `2 ^ 53` nothing is rounded, so it is the comparison of the whole numbers.
-/

namespace Phrasing

namespace Binary64

variable {num num' den n : Nat} {a b : Int}

theorem roundHalfEven_mono (h : num ≤ num') (den : Nat) :
    roundHalfEven num den ≤ roundHalfEven num' den := by
  have hquotient := Nat.div_le_div_right (c := den) h
  rcases Nat.eq_or_lt_of_le hquotient with heq | hlt
  · have hrest : num % den ≤ num' % den := by
      have hdiv := Nat.div_add_mod num den
      have hdiv' := Nat.div_add_mod num' den
      rw [heq] at hdiv
      omega
    simp only [roundHalfEven, heq]
    split
    · split
      · exact Nat.le_refl _
      · split <;> omega
    · split
      · exact Nat.le_of_eq (by rw [if_neg (by omega), if_pos (by omega)])
      · rw [if_neg (by omega)]
        split <;> omega
  · exact Nat.le_trans (roundHalfEven_le num den)
      (Nat.le_trans hlt (le_roundHalfEven num' den))

theorem excess_mono {q q' : Nat} (h : q ≤ q') : excess q ≤ excess q' := by
  by_cases hq : q = 0
  · rw [hq]
    exact Nat.zero_le _
  · have hlog : q.log2 ≤ q'.log2 :=
      (Nat.le_log2 (by omega)).2 (Nat.le_trans (Nat.log2_self_le hq) h)
    unfold excess
    omega

theorem nearestUnits_mono (hden : 0 < den) (h : num ≤ num') :
    nearestUnits num den ≤ nearestUnits num' den := by
  have hscaled : num * twoPow scale ≤ num' * twoPow scale := Nat.mul_le_mul_right _ h
  rcases Nat.eq_or_lt_of_le (excess_mono (Nat.div_le_div_right (c := den) hscaled)) with heq | hlt
  · rw [nearestUnits, nearestUnits, heq]
    exact Nat.mul_le_mul_right _ (roundHalfEven_mono hscaled _)
  · -- a power of two lies between the two quotients, and rounding does not cross it
    have hlow : num * twoPow scale / den < twoPow (num' * twoPow scale / den).log2 := by
      by_cases hzero : num * twoPow scale / den = 0
      · rw [hzero]
        exact twoPow_pos _
      · refine (log2_lt_iff hzero).1 ?_
        unfold excess at hlt
        omega
    have hne : num' * twoPow scale / den ≠ 0 := by
      intro hzero
      rw [hzero] at hlt
      exact Nat.not_lt_zero _ hlt
    have hhigh := (Nat.le_div_iff_mul_le hden).1 (Nat.log2_self_le hne)
    exact Nat.le_trans (nearestUnits_le_twoPow hlow) (twoPow_le_nearestUnits hhigh hden)

/-- The place of the double nearest to a whole number without a sign, in the order of doubles. -/
def place (n : Nat) : Nat := min limit (nearestUnits n 1)

theorem place_mono {m n : Nat} (h : m ≤ n) : place m ≤ place n := by
  have hround := nearestUnits_mono Nat.one_pos h
  unfold place
  omega

theorem key_ofInt (n : Int) :
    (ofInt n).key = some (if n < 0 then -(place n.natAbs : Int) else place n.natAbs) := by
  unfold ofInt nearest ofUnits place
  split
  · next hlt =>
    rw [Nat.min_eq_right (Nat.le_of_lt hlt)]
    by_cases hn : n < 0
    · simp [key, Finite.toInt, hn]
    · simp [key, Finite.toInt, hn]
  · next hge =>
    rw [Nat.min_eq_left (Nat.not_lt.1 hge)]
    by_cases hn : n < 0
    · simp [key, hn]
    · simp [key, hn]

theorem ofInt_mono (h : a ≤ b) : (ofInt a).le (ofInt b) = true := by
  rw [le_of_key (key_ofInt a) (key_ofInt b), decide_eq_true_eq]
  split
  · split
    · have hplace := @place_mono b.natAbs a.natAbs (by omega)
      omega
    · omega
  · rw [if_neg (by omega)]
    have hplace := @place_mono a.natAbs b.natAbs (by omega)
    omega

/-- A whole number of at most 53 bits is a double. -/
theorem key_ofInt_of_le (h : a.natAbs ≤ twoPow 53) :
    (ofInt a).key = some (a * (twoPow scale : Int)) := by
  have hround : nearestUnits a.natAbs 1 = a.natAbs * twoPow scale :=
    nearestUnits_eq_of_exact (exact_mul_twoPow h scale) Nat.one_pos (Nat.mul_one _).symm
  have hlimit : a.natAbs * twoPow scale < limit := by
    refine Nat.lt_of_le_of_lt (Nat.mul_le_mul_right _ h) ?_
    rw [← twoPow_add]
    exact Nat.pow_lt_pow_right (by omega) (by omega)
  rw [key_ofInt, place, hround, Nat.min_eq_right (Nat.le_of_lt hlimit), Option.some.injEq]
  split
  · next hneg =>
    rw [Int.natCast_mul, ← Int.neg_mul]
    congr 1
    omega
  · next hneg =>
    rw [Int.natCast_mul]
    congr 1
    omega

end Binary64

namespace Operator

/-- What the operator says of two whole numbers; a range is no comparison of two numbers. -/
def relates : Operator → Int → Int → Bool
  | equal, a, b => decide (a = b)
  | less, a, b => decide (a < b)
  | lessOrEqual, a, b => decide (a ≤ b)
  | greater, a, b => decide (b < a)
  | greaterOrEqual, a, b => decide (b ≤ a)
  | range, _, _ => false

theorem compare_ofInt_of_le {a b : Int} (ha : a.natAbs ≤ twoPow 53) (hb : b.natAbs ≤ twoPow 53)
    (o : Operator) : o.compare (.ofInt a) (.ofInt b) = o.relates a b := by
  have ha := Binary64.key_ofInt_of_le ha
  have hb := Binary64.key_ofInt_of_le hb
  have hunit : (0 : Int) < twoPow Binary64.scale := Int.natCast_pos.2 (twoPow_pos _)
  cases o with
  | equal =>
    rw [compare, Binary64.eq_of_key ha hb, relates, decide_eq_decide]
    exact Int.mul_eq_mul_right_iff (Int.ne_of_gt hunit)
  | less =>
    rw [compare, Binary64.lt_of_key ha hb, relates, decide_eq_decide]
    exact Int.mul_lt_mul_right hunit
  | lessOrEqual =>
    rw [compare, Binary64.le_of_key ha hb, relates, decide_eq_decide]
    exact Int.mul_le_mul_right hunit
  | greater =>
    rw [compare, Binary64.lt_of_key hb ha, relates, decide_eq_decide]
    exact Int.mul_lt_mul_right hunit
  | greaterOrEqual =>
    rw [compare, Binary64.le_of_key hb ha, relates, decide_eq_decide]
    exact Int.mul_le_mul_right hunit
  | range => rfl

end Operator

variable {args : List Value} {a b : Int} {i : Nat} {x : Operand}

/-- The operand stands for that whole number: it is the number, or the argument it points to is. -/
inductive Operand.IsWhole (args : List Value) : Operand → Int → Prop
  | pointer {i : Nat} {n : Int} (hvalue : args[i]? = some (.integer n)) : IsWhole args (pointer i) n
  | integer (n : Int) : IsWhole args (integer n) n

theorem Operand.IsWhole.isNumber (h : x.IsWhole args a) :
    x.IsNumber args .integer (.ofInt a) := by
  cases h with
  | pointer hvalue => exact .pointer hvalue rfl rfl
  | integer => exact .integer a

namespace Comparison

theorem evaluate_whole (ha : args[i]? = some (.integer a)) (hb : x.IsWhole args b)
    (options : Options) (negate : Bool) (o : Operator) (ho : o ≠ .range) :
    evaluate options args ⟨i, o, negate, x⟩ = .ok (negate != o.compare (.ofInt a) (.ofInt b)) :=
  evaluate_number (.pointer ha rfl rfl) hb.isNumber (.same .integer) ho negate

/-- A comparison of whole numbers never turns their order around, and is the comparison of the
numbers themselves as long as both are at most `2 ^ 53`. -/
theorem whole_order (ha : args[i]? = some (.integer a)) (hb : x.IsWhole args b) (options : Options)
    (negate : Bool) :
    (a ≤ b →
      evaluate options args ⟨i, .lessOrEqual, negate, x⟩ = .ok (!negate) ∧
      evaluate options args ⟨i, .greater, negate, x⟩ = .ok negate) ∧
    (b ≤ a →
      evaluate options args ⟨i, .greaterOrEqual, negate, x⟩ = .ok (!negate) ∧
      evaluate options args ⟨i, .less, negate, x⟩ = .ok negate) ∧
    (a.natAbs ≤ twoPow 53 → b.natAbs ≤ twoPow 53 → ∀ o, o ≠ Operator.range →
      evaluate options args ⟨i, o, negate, x⟩ = .ok (negate != o.relates a b)) := by
  have hdecided := evaluate_whole ha hb options negate
  have hnumber := Binary64.isNan_ofInt
  refine ⟨fun hle ↦ ?_, fun hge ↦ ?_, fun hsmall hsmall' o ho ↦ ?_⟩
  · have hround := Binary64.ofInt_mono hle
    have hstrict := Binary64.not_lt (hnumber b) (hnumber a)
    rw [hround, Bool.not_eq_true'] at hstrict
    rw [hdecided _ (by simp), hdecided _ (by simp), Operator.compare, Operator.compare, hround,
      hstrict]
    simp
  · have hround := Binary64.ofInt_mono hge
    have hstrict := Binary64.not_lt (hnumber a) (hnumber b)
    rw [hround, Bool.not_eq_true'] at hstrict
    rw [hdecided _ (by simp), hdecided _ (by simp), Operator.compare, Operator.compare, hround,
      hstrict]
    simp
  · rw [hdecided o ho, Operator.compare_ofInt_of_le hsmall hsmall' o]

/-- The greatest argument and the one before it are rounded to one double, as are `2 ^ 53` and the
number after it; the numbers up to `2 ^ 53` are not. -/
theorem whole_order_greatest :
    let args := [.integer 18446744073709551615, .integer 18446744073709551614,
      .integer 9007199254740992]
    args[0]? = some (.integer 18446744073709551615) ∧
      (Operand.pointer 1).IsWhole args 18446744073709551614 ∧
      evaluate .standard args ⟨0, .greaterOrEqual, false, .pointer 1⟩ = .ok true ∧
      evaluate .standard args ⟨0, .less, false, .pointer 1⟩ = .ok false ∧
      evaluate .standard args ⟨0, .equal, false, .pointer 1⟩ = .ok true ∧
      evaluate .standard args ⟨2, .lessOrEqual, false, .integer 9007199254740993⟩ = .ok true ∧
      evaluate .standard args ⟨2, .equal, false, .integer 9007199254740993⟩ = .ok true ∧
      evaluate .standard args ⟨2, .equal, false, .integer 9007199254740991⟩ = .ok false := by
  intro args
  have hgreatest : args[0]? = some (.integer 18446744073709551615) := rfl
  have hbefore : (Operand.pointer 1).IsWhole args 18446744073709551614 := .pointer rfl
  have hexact : args[2]? = some (.integer 9007199254740992) := rfl
  obtain ⟨hge, hlt⟩ := (whole_order hgreatest hbefore .standard false).2.1 (by decide)
  obtain ⟨hle, -⟩ := (whole_order hexact (.integer 9007199254740993) .standard false).1 (by decide)
  have hdiffer := (whole_order hexact (.integer 9007199254740991) .standard false).2.2
    (by decide) (by decide) .equal (by simp)
  refine ⟨hgreatest, hbefore, hge, hlt, ?_, hle, ?_, hdiffer⟩
  · exact Outcome.toOption_eq_some_iff.1 (by decide +kernel)
  · exact Outcome.toOption_eq_some_iff.1 (by decide +kernel)

end Comparison

end Phrasing
