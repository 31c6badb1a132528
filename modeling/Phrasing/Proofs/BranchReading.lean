import Phrasing.Proofs.BranchData
import Phrasing.Proofs.Overflow

/-!
A branch that is read as data is read again from what is written of it, however it was given: with
further fields, as a list, without `negate`, or with whole numbers where floats are meant.
-/

namespace Phrasing

/-- A whole number of 64 bits, with a sign or without, is rounded to a finite double. -/
theorem Binary64.isFinite_ofInt {n : Int} (hlow : -0x8000000000000000 ≤ n)
    (hhigh : n < Numeral.indexLimit) : (ofInt n).isFinite = true := by
  have hsmall : n.natAbs < Numeral.indexLimit := by
    unfold Numeral.indexLimit at hhigh ⊢
    omega
  have hscaled : n.natAbs * twoPow scale / 1 < twoPow (64 + scale) := by
    rw [Nat.div_one, twoPow_add]
    exact Nat.mul_lt_mul_of_pos_right hsmall (twoPow_pos scale)
  have hround : nearestUnits n.natAbs 1 < limit :=
    Nat.lt_of_le_of_lt (nearestUnits_le_twoPow hscaled)
      (Nat.pow_lt_pow_right (by omega) (by omega))
  rw [ofInt, nearest, ofUnits, dif_pos hround]
  rfl

namespace Value

/-- A value whose whole numbers have 64 bits, with a sign or without. -/
inductive InLimits : Value → Prop
  | null : InLimits null
  | bool (b : Bool) : InLimits (bool b)
  | integer {n : Int} (hlow : -0x8000000000000000 ≤ n) (hhigh : n < Numeral.indexLimit) :
      InLimits (integer n)
  | float (x : Binary64.Finite) : InLimits (float x)
  | text (s : String) : InLimits (text s)
  | array {items : List Value} (hitems : ∀ v ∈ items, InLimits v) : InLimits (array items)
  | object {fields : List (String × Value)} (hfields : ∀ field ∈ fields, InLimits field.2) :
      InLimits (object fields)

variable {v w : Value} {name : String} {x : Binary64} {i : Nat} {n : Int}

theorem InLimits.field? (hv : v.InLimits) (h : v.field? name = some w) : w.InLimits := by
  cases hv with
  | object hfields =>
    obtain ⟨before, after, rfl, -⟩ := List.lookup_eq_some_iff.1 h
    exact hfields (name, w) (by simp)
  | _ => cases h

theorem InLimits.isFinite (hv : v.InLimits) (h : v.number? = some x) : x.isFinite = true := by
  cases hv with
  | integer hlow hhigh =>
    obtain rfl := Option.some.inj h
    exact Binary64.isFinite_ofInt hlow hhigh
  | float =>
    obtain rfl := Option.some.inj h
    rfl
  | _ => cases h

theorem lt_of_index? (h : v.index? = some i) : i < Numeral.indexLimit := by
  unfold index? at h
  split at h
  · split at h <;> cases h
    assumption
  · cases h

theorem isLiteral_of_literal? (h : v.literal? = some n) : Numeral.isLiteral n = true := by
  unfold literal? at h
  split at h
  · split at h <;> cases h
    assumption
  · cases h

end Value

/-- What can be read of an operand: numbers within limits, and no double that is not finite. -/
def Operand.IsData (x : Operand) : Prop := x.InLimits ∧ ∀ y ∈ x.doubles, y.isFinite = true

namespace Operand

variable {v : Value} {x : Operand} {form : String}

theorem isData_of_rangeOfValue? (hv : v.InLimits) (h : rangeOfValue? v = some x) : x.IsData := by
  obtain ⟨lowValue, hlowField, h⟩ := Option.bind_eq_some_iff.1 h
  obtain ⟨low, hlow, h⟩ := Option.bind_eq_some_iff.1 h
  obtain ⟨highValue, hhighField, h⟩ := Option.bind_eq_some_iff.1 h
  obtain ⟨high, hhigh, h⟩ := Option.bind_eq_some_iff.1 h
  obtain rfl := Option.some.inj h
  refine ⟨trivial, List.forall_mem_cons.2 ⟨?_, List.forall_mem_singleton.2 ?_⟩⟩
  · exact (hv.field? hlowField).isFinite hlow
  · exact (hv.field? hhighField).isFinite hhigh

theorem isData_of_ofContent? (hv : v.InLimits) (h : ofContent? form v = some x) : x.IsData := by
  unfold ofContent? at h
  split at h
  · obtain ⟨i, hi, rfl⟩ := Option.map_eq_some_iff.1 h
    exact ⟨Value.lt_of_index? hi, by simp [doubles]⟩
  split at h
  · obtain ⟨n, hn, rfl⟩ := Option.map_eq_some_iff.1 h
    exact ⟨Value.isLiteral_of_literal? hn, by simp [doubles]⟩
  split at h
  · obtain ⟨y, hy, rfl⟩ := Option.map_eq_some_iff.1 h
    exact ⟨trivial, List.forall_mem_singleton.2 (hv.isFinite hy)⟩
  split at h
  · obtain ⟨s, -, rfl⟩ := Option.map_eq_some_iff.1 h
    exact ⟨trivial, by simp [doubles]⟩
  split at h
  · exact isData_of_rangeOfValue? hv h
  · cases h

theorem isData_of_ofValue? (hv : v.InLimits) (h : ofValue? v = some x) : x.IsData := by
  unfold ofValue? at h
  split at h
  · next form content =>
    obtain ⟨name, -, h⟩ := Option.bind_eq_some_iff.1 h
    cases hv with
    | array hitems => exact isData_of_ofContent? (hitems content (by simp)) h
  · obtain ⟨form, -, h⟩ := Option.bind_eq_some_iff.1 h
    obtain ⟨name, -, h⟩ := Option.bind_eq_some_iff.1 h
    obtain ⟨content, hcontent, h⟩ := Option.bind_eq_some_iff.1 h
    exact isData_of_ofContent? (hv.field? hcontent) h

end Operand

namespace Branch

variable {v target operator negate operand result : Value} {b : Branch}

theorem isData_of_ofParts? (hoperand : operand.InLimits)
    (h : ofParts? target operator negate operand result = some b) :
    b.target < Numeral.indexLimit ∧ b.operand.IsData := by
  obtain ⟨i, hi, h⟩ := Option.bind_eq_some_iff.1 h
  obtain ⟨name, -, h⟩ := Option.bind_eq_some_iff.1 h
  obtain ⟨o, -, h⟩ := Option.bind_eq_some_iff.1 h
  obtain ⟨turned, -, h⟩ := Option.bind_eq_some_iff.1 h
  obtain ⟨x, hx, h⟩ := Option.bind_eq_some_iff.1 h
  obtain ⟨s, -, h⟩ := Option.bind_eq_some_iff.1 h
  obtain rfl := Option.some.inj h
  exact ⟨Value.lt_of_index? hi, Operand.isData_of_ofValue? hoperand hx⟩

theorem isData_of_ofValue? (hv : v.InLimits) (h : ofValue? v = some b) :
    b.target < Numeral.indexLimit ∧ b.operand.IsData := by
  unfold ofValue? at h
  split at h
  · next target operator negate operand result =>
    cases hv with
    | array hitems => exact isData_of_ofParts? (hitems operand (by simp)) h
  · obtain ⟨target, -, h⟩ := Option.bind_eq_some_iff.1 h
    obtain ⟨operator, -, h⟩ := Option.bind_eq_some_iff.1 h
    obtain ⟨operand, hoperand, h⟩ := Option.bind_eq_some_iff.1 h
    obtain ⟨result, -, h⟩ := Option.bind_eq_some_iff.1 h
    exact isData_of_ofParts? (hv.field? hoperand) h

/-- A branch is read from what is written of it just when its doubles are finite, and then it is that
branch, with the sign of each zero; else nothing is read. So whatever value a branch was read from,
writing it and reading it again changes nothing. -/
theorem data_reads_back (b : Branch) :
    (b.InLimits → ofValue? b.toValue =
      if ∀ x ∈ b.operand.doubles, x.isFinite = true then some b else none) ∧
    ∀ v : Value, v.InLimits → ofValue? v = some b →
      b.InLimits ∧ ofValue? b.toValue = some b := by
  constructor
  · intro hb
    rw [ofValue?_toValue hb]
    simp only [List.all_eq_true]
  · intro v hv h
    obtain ⟨htarget, hoperand, hfinite⟩ := isData_of_ofValue? hv h
    refine ⟨⟨htarget, hoperand⟩, ?_⟩
    rw [ofValue?_toValue ⟨htarget, hoperand⟩, if_pos (List.all_eq_true.2 hfinite)]

/-- The greatest target, a zero with a sign, a whole number as a bound, no `negate`, and fields that
mean nothing. -/
theorem data_reads_back_range :
    let v : Value := .object [
      ("more", .array [.integer (-9223372036854775808), .null]),
      ("operand", .object [("type", .text "range"),
        ("value", .object [("high", .integer 18446744073709551615), ("low", .float (.zero true)),
          ("middle", .integer 5)])]),
      ("operator", .text "range"), ("result", .text "in"), ("target", .integer 18446744073709551615)]
    let b : Branch := ⟨⟨18446744073709551615, .range, false,
      .range (.finite (.zero true)) (.ofInt 18446744073709551615)⟩, "in"⟩
    let unread : Branch := ⟨⟨0, .equal, true, .float (.nan (.quiet false))⟩, "none"⟩
    v.InLimits ∧ ofValue? v = some b ∧ b.InLimits ∧ ofValue? b.toValue = some b ∧
      unread.InLimits ∧ ofValue? unread.toValue = none := by
  intro v b unread
  have hv : v.InLimits := by
    refine .object ?_
    simp only [List.forall_mem_cons]
    refine ⟨.array ?_, .object ?_, .text _, .text _, .integer (by decide) (by decide), by simp⟩
    · simp only [List.forall_mem_cons]
      exact ⟨.integer (by decide) (by decide), .null, by simp⟩
    · simp only [List.forall_mem_cons]
      refine ⟨.text _, .object ?_, by simp⟩
      simp only [List.forall_mem_cons]
      exact ⟨.integer (by decide) (by decide), .float _, .integer (by decide) (by decide), by simp⟩
  have hread : ofValue? v = some b := by decide +kernel
  have hunread : unread.InLimits := ⟨by decide, trivial⟩
  obtain ⟨hb, hback⟩ := (data_reads_back b).2 v hv hread
  refine ⟨hv, hread, hb, hback, hunread, ?_⟩
  rw [(data_reads_back unread).1 hunread, if_neg]
  simp [unread, Operand.doubles, Binary64.isFinite]

end Branch

end Phrasing
