import Phrasing.Proofs.DoubleOrder
import Phrasing.Proofs.Verdict

/-!
Comparisons of numbers. Arguments whose kinds may be compared are in a total order, and so are an
argument and a literal. A range asks where an argument lies in that order.
-/

namespace Phrasing

variable {options : Options} {args : List Value} {kind kind' a b c : Kind} {i j k : Nat}
  {x : Operand} {y z : Binary64} {o : Operator} {v : Value}

theorem Value.not_isNan_of_number? (h : v.number? = some y) : y.isNan = false := by
  cases v <;> cases h
  · exact Binary64.isNan_ofInt _
  · rfl

theorem Operand.exists_isNumber (hvalue : args[i]? = some v) (hy : v.number? = some y) :
    ∃ kind, (pointer i).IsNumber args kind y := by
  cases v <;> cases hy <;> exact ⟨_, .pointer hvalue rfl rfl⟩

/-- The argument at that index is a number, and of that kind. -/
structure NumberAt (args : List Value) (i : Nat) (kind : Kind) : Prop where
  isNumber : kind.isNumber = true
  given : ∃ v, args[i]? = some v ∧ v.kind? = some kind

/-- Each number is compared as a double, which is a number too. -/
theorem NumberAt.exists_isNumber (h : NumberAt args i kind) :
    ∃ y, (Operand.pointer i).IsNumber args kind y ∧ y.isNan = false := by
  obtain ⟨hnumber, v, hvalue, hkind⟩ := h
  obtain ⟨y, hy⟩ : ∃ y, v.number? = some y := by
    cases v with
    | integer | float => exact ⟨_, rfl⟩
    | null | bool | text | array | object => cases hkind <;> cases hnumber
  exact ⟨y, .pointer hvalue hkind hy, Value.not_isNan_of_number? hy⟩

namespace Comparison

/-- The argument stands to the operand as the operator says. -/
def Holds (options : Options) (args : List Value) (i : Nat) (o : Operator) (x : Operand) : Prop :=
  evaluate options args ⟨i, o, false, x⟩ = .ok true

theorem evaluate_number (hi : (Operand.pointer i).IsNumber args kind y)
    (hx : x.IsNumber args kind' z) (h : options.Alike kind kind') (ho : o ≠ .range)
    (negate : Bool) :
    evaluate options args ⟨i, o, negate, x⟩ = .ok (negate != o.compare y z) :=
  (Verdict.number hi hx h (o.says_compare ho y z)).evaluate_eq

theorem holds_number (hi : (Operand.pointer i).IsNumber args kind y)
    (hx : x.IsNumber args kind' z) (h : options.Alike kind kind') (ho : o ≠ .range) :
    Holds options args i o x ↔ o.compare y z = true := by
  rw [Holds, evaluate_number hi hx h ho]
  simp

/-- The argument is in one order with the operand: each comparison is decided, just one of less,
equal and greater holds, and the other operators and the negations follow these. -/
structure Ordered (options : Options) (args : List Value) (i : Nat) (x : Operand) : Prop where
  decided (o : Operator) (ho : o ≠ .range) (negate : Bool) :
    ∃ holds, evaluate options args ⟨i, o, negate, x⟩ = .ok holds
  exactlyOne : ∃ o ∈ [Operator.less, .equal, .greater], ∀ o' ∈ [Operator.less, .equal, .greater],
    Holds options args i o' x ↔ o' = o
  lessOrEqual : Holds options args i .lessOrEqual x ↔
    Holds options args i .less x ∨ Holds options args i .equal x
  greaterOrEqual : Holds options args i .greaterOrEqual x ↔
    Holds options args i .greater x ∨ Holds options args i .equal x
  notLess (negate : Bool) : evaluate options args ⟨i, .less, !negate, x⟩ =
    evaluate options args ⟨i, .greaterOrEqual, negate, x⟩
  notGreater (negate : Bool) : evaluate options args ⟨i, .greater, !negate, x⟩ =
    evaluate options args ⟨i, .lessOrEqual, negate, x⟩

theorem ordered_of_isNumber (hi : (Operand.pointer i).IsNumber args kind y)
    (hx : x.IsNumber args kind' z) (h : options.Alike kind kind') (hy : y.isNan = false)
    (hz : z.isNan = false) : Ordered options args i x where
  decided o ho negate := ⟨_, evaluate_number hi hx h ho negate⟩
  exactlyOne := by
    obtain ⟨o, ho, hunique⟩ := Operator.exists_compare_iff hy hz
    refine ⟨o, ho, fun o' ho' ↦ ?_⟩
    rw [holds_number hi hx h (by rintro rfl; simp at ho')]
    exact hunique o' ho'
  lessOrEqual := by
    rw [holds_number hi hx h (by simp), holds_number hi hx h (by simp),
      holds_number hi hx h (by simp)]
    exact Binary64.le_iff_lt_or_eq hy hz
  greaterOrEqual := by
    rw [holds_number hi hx h (by simp), holds_number hi hx h (by simp),
      holds_number hi hx h (by simp), Operator.compare, Operator.compare, Operator.compare,
      Binary64.eq_comm]
    exact Binary64.le_iff_lt_or_eq hz hy
  notLess negate := by
    rw [evaluate_number hi hx h (by simp), evaluate_number hi hx h (by simp), Operator.compare,
      Operator.compare, ← Binary64.not_lt hy hz]
    simp
  notGreater negate := by
    rw [evaluate_number hi hx h (by simp), evaluate_number hi hx h (by simp), Operator.compare,
      Operator.compare, ← Binary64.not_lt hz hy]
    simp

theorem evaluate_mirrored (hi : NumberAt args i a) (hj : NumberAt args j b)
    (h : options.Alike a b) (ho : o ≠ .range) (negate : Bool) :
    evaluate options args ⟨i, o, negate, .pointer j⟩ =
      evaluate options args ⟨j, o.mirrored, negate, .pointer i⟩ := by
  obtain ⟨y, hy, -⟩ := hi.exists_isNumber
  obtain ⟨z, hz, -⟩ := hj.exists_isNumber
  rw [evaluate_number hy hz h ho, evaluate_number hz hy h.symm (Operator.mirrored_ne_range ho),
    Operator.compare_mirrored]

theorem Holds.trans (hi : NumberAt args i a) (hj : NumberAt args j b) (hk : NumberAt args k c)
    (hij : options.Alike a b) (hjk : options.Alike b c) (hik : options.Alike a c)
    (hle : Holds options args i .lessOrEqual (.pointer j))
    (hle' : Holds options args j .lessOrEqual (.pointer k)) :
    Holds options args i .lessOrEqual (.pointer k) := by
  obtain ⟨x, hx, -⟩ := hi.exists_isNumber
  obtain ⟨y, hy, -⟩ := hj.exists_isNumber
  obtain ⟨z, hz, -⟩ := hk.exists_isNumber
  rw [holds_number hx hy hij (by simp)] at hle
  rw [holds_number hy hz hjk (by simp)] at hle'
  rw [holds_number hx hz hik (by simp)]
  exact Binary64.le_trans hle hle'

/-- Arguments that are numbers of kinds alike are in a total order, the same from both sides, and
each of them is in order with the literals of a kind alike. -/
theorem numeric_order (hi : NumberAt args i a) (hj : NumberAt args j b) (hk : NumberAt args k c)
    (hij : options.Alike a b) (hjk : options.Alike b c) (hik : options.Alike a c) :
    Ordered options args i (.pointer j) ∧
    (∀ o negate, o ≠ Operator.range → evaluate options args ⟨i, o, negate, .pointer j⟩ =
      evaluate options args ⟨j, o.mirrored, negate, .pointer i⟩) ∧
    (Holds options args i .lessOrEqual (.pointer j) →
      Holds options args j .lessOrEqual (.pointer k) →
      Holds options args i .lessOrEqual (.pointer k)) ∧
    (∀ n, options.Alike a .integer → Ordered options args i (.integer n)) ∧
    ∀ w, w.isNan = false → options.Alike a .float → Ordered options args i (.float w) := by
  obtain ⟨y, hy, hynan⟩ := hi.exists_isNumber
  obtain ⟨z, hz, hznan⟩ := hj.exists_isNumber
  refine ⟨ordered_of_isNumber hy hz hij hynan hznan,
    fun o negate ho ↦ evaluate_mirrored hi hj hij ho negate,
    Holds.trans hi hj hk hij hjk hik, fun n hn ↦ ?_, fun w hw hfloat ↦ ?_⟩
  · exact ordered_of_isNumber hy (.integer n) hn hynan (Binary64.isNan_ofInt n)
  · exact ordered_of_isNumber hy (.float w) hfloat hynan hw

/-- With lenient kinds zero equals the other zero, which is a float, and both are below five. -/
theorem numeric_order_zeros :
    let options : Options := ⟨false, false⟩
    let args := [.integer 0, .float (.zero true), .integer 5]
    NumberAt args 0 .integer ∧ NumberAt args 1 .float ∧ NumberAt args 2 .integer ∧
      options.Alike .integer .float ∧ options.Alike .float .integer ∧
      options.Alike .integer .integer ∧ Holds options args 0 .equal (.pointer 1) ∧
      ¬Holds options args 0 .less (.pointer 1) ∧ Holds options args 0 .lessOrEqual (.pointer 1) ∧
      Holds options args 1 .lessOrEqual (.pointer 2) ∧
      Holds options args 0 .lessOrEqual (.pointer 2) ∧ Ordered options args 0 (.integer 5) ∧
      Ordered options args 0 (.float (.infinity false)) := by
  intro options args
  have hzero : NumberAt args 0 .integer := ⟨rfl, _, rfl, rfl⟩
  have hminus : NumberAt args 1 .float := ⟨rfl, _, rfl, rfl⟩
  have hfive : NumberAt args 2 .integer := ⟨rfl, _, rfl, rfl⟩
  have hequal : Holds options args 0 .equal (.pointer 1) :=
    Outcome.toOption_eq_some_iff.1 (by decide +kernel)
  have hle : Holds options args 1 .lessOrEqual (.pointer 2) :=
    Outcome.toOption_eq_some_iff.1 (by decide +kernel)
  have hkinds : options.Alike .integer .integer := .same _
  obtain ⟨hordered, hmirror, htrans, hinteger, hfloat⟩ :=
    numeric_order hzero hminus hfive (.integerFloat rfl) (.floatInteger rfl) hkinds
  have hless : ¬Holds options args 0 .less (.pointer 1) := by
    intro hless
    obtain ⟨o, -, hunique⟩ := hordered.exactlyOne
    cases ((hunique .equal (by simp)).1 hequal).trans ((hunique .less (by simp)).1 hless).symm
  have hle' := hordered.lessOrEqual.2 (.inr hequal)
  exact ⟨hzero, hminus, hfive, .integerFloat rfl, .floatInteger rfl, hkinds, hequal, hless, hle',
    hle, htrans hle' hle, hinteger 5 hkinds, hfloat _ rfl (.integerFloat rfl)⟩

theorem evaluate_range_of_isNumber (hi : (Operand.pointer i).IsNumber args kind y)
    (negate : Bool) (low high : Binary64) :
    evaluate options args ⟨i, .range, negate, .range low high⟩ =
      if low.isNan ∨ high.isNan then .ok negate
      else if low.lt high then .ok (negate != (low.le y && y.le high))
      else .error (.emptyRange low high) := by
  split
  · next hnan =>
    -- no number stands to such a bound in any order, so the bounds are not told to be wrong
    have hbounds : high.le low = false := Binary64.holds_of_isNan hnan.symm
    have hanswer : (low.le y && y.le high) = false := by
      rw [Bool.and_eq_false_iff]
      exact hnan.imp (fun hlow ↦ Binary64.holds_of_isNan (.inl hlow))
        fun hhigh ↦ Binary64.holds_of_isNan (.inr hhigh)
    rw [(Verdict.range hi rfl rfl hbounds).evaluate_eq, hanswer, Bool.bne_false]
  · next hnan =>
    simp only [not_or, Bool.not_eq_true] at hnan
    obtain ⟨hlow, hhigh⟩ := hnan
    have hbounds := Binary64.not_lt hlow hhigh
    split
    · next hlt =>
      rw [hlt] at hbounds
      exact (Verdict.range hi rfl rfl hbounds.symm).evaluate_eq
    · next hlt =>
      rw [eq_false_of_ne_true hlt] at hbounds
      exact (Verdict.emptyRange hi rfl rfl hbounds.symm).evaluate_eq

/-- A range with bounds in order holds the numbers from the one to the other, both included. Other
bounds are a failure, and only where one of them is no number is a range empty and nothing told. -/
theorem evaluate_range (hvalue : args[i]? = some v) (hy : v.number? = some y) (negate : Bool)
    (low high : Binary64) :
    (evaluate options args ⟨i, .range, negate, .range low high⟩ =
      if low.isNan ∨ high.isNan then .ok negate
      else if low.lt high then .ok (negate != (low.le y && y.le high))
      else .error (.emptyRange low high)) ∧
    ((∀ z, evaluate options (args.set i (.float z)) ⟨i, .range, negate, .range low high⟩ =
      .ok negate) ↔ low.isNan ∨ high.isNan) := by
  obtain ⟨kind, hi⟩ := Operand.exists_isNumber hvalue hy
  refine ⟨evaluate_range_of_isNumber hi negate low high, ?_⟩
  have hset (z) : (Operand.pointer i).IsNumber (args.set i (.float z)) .float (.finite z) :=
    .pointer (List.getElem?_set_self (List.getElem?_eq_some_iff.1 hvalue).1) rfl rfl
  constructor
  · intro hempty
    apply Classical.byContradiction
    intro hnan
    cases hlt : low.lt high with
    | true =>
      obtain ⟨z, hlow, hhigh⟩ := Binary64.exists_between hlt
      have hin := hempty z
      rw [evaluate_range_of_isNumber (hset z), if_neg hnan, if_pos hlt, hlow, hhigh] at hin
      cases negate <;> cases hin
    | false =>
      have hout := hempty (.zero false)
      rw [evaluate_range_of_isNumber (hset _), if_neg hnan, if_neg (by simp [hlt])] at hout
      cases hout
  · intro hnan z
    rw [evaluate_range_of_isNumber (hset z), if_pos hnan]

theorem evaluate_range_five :
    let args := [.integer 5]
    let five := Binary64.ofInt 5
    args[0]? = some (.integer 5) ∧ (Value.integer 5).number? = some five ∧
      evaluate .standard args ⟨0, .range, false, .range five (.infinity false)⟩ = .ok true ∧
      evaluate .standard args ⟨0, .range, true, .range five five⟩ =
        .error (.emptyRange five five) ∧
      evaluate .standard args ⟨0, .range, false, .range (.nan (.quiet false)) five⟩ = .ok false := by
  intro args five
  have hvalue : args[0]? = some (.integer 5) := rfl
  have hnumber : (Value.integer 5).number? = some five := rfl
  have hlt : five.lt (.infinity false) = true := by decide +kernel
  have hself : five.lt five = false := by decide +kernel
  have hle : five.le five = true := by decide +kernel
  refine ⟨hvalue, hnumber, ?_, ?_, ?_⟩
  · rw [(evaluate_range hvalue hnumber _ _ _).1, if_neg (by decide +kernel), if_pos hlt]
    rw [hle, Binary64.le_of_lt hlt]
    rfl
  · rw [(evaluate_range hvalue hnumber _ _ _).1, if_neg (by decide +kernel),
      if_neg (by simp [hself])]
  · rw [(evaluate_range hvalue hnumber _ _ _).1, if_pos (.inl rfl)]

end Comparison

end Phrasing
