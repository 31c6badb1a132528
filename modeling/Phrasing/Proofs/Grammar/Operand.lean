import Phrasing.Proofs.Grammar.Numeral

/-!
The grammar of operands, and that an operand is read just as the grammar says.
-/

namespace Phrasing.Grammar

/-- An operand without blanks: a pointer, else a whole number, else a float, else the text itself.
What starts with a brace has to be a pointer. -/
inductive OperandText : List Char → Operand → Prop
  | pointer {digits : List Char} {n : Nat} (h : Index digits n) :
      OperandText ('{' :: digits ++ ['}']) (.pointer n)
  | integer {s : List Char} {i : Int} (h : Literal s i) : OperandText s (.integer i)
  | float {s : List Char} {x : Binary64} (hint : ¬∃ i, Literal s i) (h : Real s x) :
      OperandText s (.float x)
  | text {s : List Char} (hbrace : s.head? ≠ some '{') (hint : ¬∃ i, Literal s i)
      (hreal : ¬∃ x, Real s x) : OperandText s (.text (String.ofList s))

variable {s sign digits body : List Char} {negative : Bool} {n : Nat} {i e : Int} {d : Decimal}
  {x : Binary64}

/-- The characters of decimal numbers. -/
def isNumeric (c : Char) : Bool := c.isDigit || ['+', '-', '.', 'e', 'E'].contains c

theorem isNumeric_of_isDigit {c : Char} (h : c.isDigit) : isNumeric c := by simp [isNumeric, h]

theorem Whole.numeric (h : Whole s n) : ∀ c ∈ s, isNumeric c :=
  fun c hc ↦ isNumeric_of_isDigit (h.1.2 c hc)

theorem Sign.numeric (h : Sign sign negative) : ∀ c ∈ sign, isNumeric c := by
  cases h <;> simp [isNumeric]

theorem Signed.numeric (h : Signed s i) : ∀ c ∈ s, isNumeric c := by
  obtain ⟨hsign, hdigits⟩ := h
  exact List.forall_mem_append.2 ⟨hsign.numeric, hdigits.numeric⟩

theorem Fraction.numeric {point fraction : List Char} (h : Fraction point fraction) :
    ∀ c ∈ point, isNumeric c := by
  cases h with
  | absent => simp
  | point h => exact List.forall_mem_cons.2 ⟨rfl, fun c hc ↦ isNumeric_of_isDigit (h c hc)⟩

theorem Power.numeric (h : Power s e) : ∀ c ∈ s, isNumeric c := by
  cases h with
  | absent => simp
  | mark hmark hs =>
    refine List.forall_mem_cons.2 ⟨?_, hs.numeric⟩
    rcases hmark with rfl | rfl <;> rfl

theorem Unsigned.numeric (h : Unsigned s d) : ∀ c ∈ s, isNumeric c := by
  obtain ⟨hwhole, hpoint, -, hpower⟩ := h
  refine List.forall_mem_append.2 ⟨fun c hc ↦ isNumeric_of_isDigit (hwhole c hc), ?_⟩
  exact List.forall_mem_append.2 ⟨hpoint.numeric, hpower.numeric⟩

theorem Unsigned.exists_digit (h : Unsigned s d) : ∃ c ∈ s, c.isDigit := by
  obtain ⟨hwhole, hpoint, hany, -⟩ := h
  obtain ⟨c, hc⟩ := List.exists_mem_of_ne_nil _ hany
  rcases List.mem_append.1 hc with hc | hc
  · exact ⟨c, by simp [hc], hwhole c hc⟩
  · cases hpoint with
    | absent => cases hc
    | point h => exact ⟨c, by simp [hc], h c hc⟩

theorem Unsigned.plain (h : Unsigned s d) : Plain s := by
  obtain @⟨whole, point, fraction, power, e, hwhole, hpoint, hany, -⟩ := h
  cases whole with
  | cons c whole => exact plain_cons (.inl (hwhole c (by simp)))
  | nil =>
    cases hpoint with
    | absent => exact absurd rfl hany
    | point => exact plain_cons (.inr rfl)

theorem Real.numeric (h : Real s x) : ∀ c ∈ s, isNumeric c := by
  obtain ⟨hsign, hbody⟩ := h
  exact List.forall_mem_append.2 ⟨hsign.numeric, hbody.numeric⟩

theorem Real.exists_digit (h : Real s x) : ∃ c ∈ s, c.isDigit := by
  obtain ⟨-, hbody⟩ := h
  obtain ⟨c, hc, hdigit⟩ := hbody.exists_digit
  exact ⟨c, List.mem_append_right _ hc, hdigit⟩

theorem looksNumeric_iff : Numeral.looksNumeric s = true ↔
    (∃ c ∈ s, c.isDigit) ∧ ∀ c ∈ s, isNumeric c := by
  rw [Numeral.looksNumeric, Bool.and_eq_true, List.any_eq_true, List.all_eq_true]
  rfl

theorem toLower_ne_of_isNumeric {c : Char} (h : isNumeric c) : c.toLower ≠ 'n' := by
  simp only [isNumeric, Bool.or_eq_true, List.contains_iff_mem, List.mem_cons,
    List.not_mem_nil, or_false] at h
  rcases h with h | rfl | rfl | rfl | rfl | rfl
  · have hle : c.val ≤ '9'.val := by
      simp only [Char.isDigit, Bool.and_eq_true, decide_eq_true_eq] at h
      exact h.2
    have hlower : ¬('A'.val ≤ c.val ∧ c.val ≤ 'Z'.val) := by
      intro hupper
      exact absurd (UInt32.le_trans hupper.1 hle) (by decide)
    delta Char.toLower
    rw [dif_neg hlower]
    intro heq
    subst heq
    exact absurd h (by decide)
  all_goals decide

/-- Every word for a double has an `n`, which no number has. -/
theorem ofWord?_eq_none (h : ∀ c ∈ s, isNumeric c) : Binary64.ofWord? negative s = none := by
  have hn : 'n' ∉ s.map Char.toLower := by
    intro hmem
    obtain ⟨c, hc, hlower⟩ := List.mem_map.1 hmem
    exact toLower_ne_of_isNumeric (h c hc) hlower
  simp only [Binary64.ofWord?]
  rw [if_neg, if_neg]
  · intro hword
    simp [hword] at hn
  · intro h
    rcases h with hword | hword <;> simp [hword] at hn

theorem Real.read? (h : Real s x) : Binary64.read? s = some x := by
  obtain ⟨hsign, hbody⟩ := h
  simp only [Binary64.read?, splitSign_append hsign hbody.plain, ofWord?_eq_none hbody.numeric,
    decimalRead?_iff.2 hbody]
  rfl

theorem real_of_read? (hs : ∀ c ∈ s, isNumeric c) (h : Binary64.read? s = some x) : Real s x := by
  obtain ⟨sign, hsign, hbody⟩ := sign_splitSign s
  simp only [Binary64.read?] at h
  generalize Numeral.splitSign s = p at h hsign hbody
  rw [ofWord?_eq_none fun c hc ↦ hs c (by simp [hbody, hc])] at h
  obtain ⟨d, hd, rfl⟩ := Option.map_eq_some_iff.1 h
  rw [hbody]
  exact .mk hsign (decimalRead?_iff.1 hd)

theorem float_iff :
    (if Numeral.looksNumeric s then Binary64.read? s else none) = some x ↔ Real s x := by
  constructor
  · intro h
    split at h
    · next hs => exact real_of_read? (looksNumeric_iff.1 hs).2 h
    · cases h
  · intro h
    rw [if_pos (looksNumeric_iff.2 ⟨h.exists_digit, h.numeric⟩), h.read?]

theorem braced?_iff : Numeral.braced? s = some n ↔
    ∃ digits, s = '{' :: digits ++ ['}'] ∧ Index digits n := by
  constructor
  · intro h
    unfold Numeral.braced? at h
    split at h
    · next s =>
      split at h
      · next hlast =>
        obtain ⟨digits, rfl⟩ := List.getLast?_eq_some_iff.1 hlast
        rw [List.dropLast_concat, index?_iff] at h
        exact ⟨digits, rfl, h⟩
      · cases h
    · cases h
  · intro h
    obtain ⟨digits, rfl, h⟩ := h
    simp only [Numeral.braced?, List.cons_append]
    rw [if_pos (by simp), List.dropLast_concat, index?_iff.2 h]

theorem literal?_eq_none_iff : Numeral.literal? s = none ↔ ¬∃ i, Literal s i := by
  rw [← Option.not_isSome_iff_eq_none, Option.isSome_iff_exists]
  simp only [literal?_iff]

theorem ofLiteral_iff {y : Operand} (hbrace : s.head? ≠ some '{') :
    Operand.ofLiteral s = y ↔ OperandText s y := by
  unfold Operand.ofLiteral
  cases hint : Numeral.literal? s with
  | some i =>
    have hi := literal?_iff.1 hint
    constructor
    · intro heq
      subst heq
      exact .integer hi
    · intro h
      cases h with
      | pointer => exact absurd rfl hbrace
      | integer h => exact congrArg Operand.integer (Option.some.inj (hint.symm.trans (literal?_iff.2 h)))
      | float h | text _ h => exact absurd ⟨i, hi⟩ h
  | none =>
    have hi := literal?_eq_none_iff.1 hint
    cases hreal : if Numeral.looksNumeric s then Binary64.read? s else none with
    | some x =>
      have hx := float_iff.1 hreal
      constructor
      · intro heq
        subst heq
        exact .float hi hx
      · intro h
        cases h with
        | pointer => exact absurd rfl hbrace
        | integer h => exact absurd ⟨_, h⟩ hi
        | float _ h => exact congrArg Operand.float (Option.some.inj (hreal.symm.trans (float_iff.2 h)))
        | text _ _ h => exact absurd ⟨x, hx⟩ h
    | none =>
      constructor
      · intro heq
        subst heq
        refine .text hbrace hi ?_
        intro h
        obtain ⟨x, hx⟩ := h
        exact absurd (hreal.symm.trans (float_iff.2 hx)) (by simp)
      · intro h
        cases h with
        | pointer => exact absurd rfl hbrace
        | integer h => exact absurd ⟨_, h⟩ hi
        | float _ h => exact absurd (hreal.symm.trans (float_iff.2 h)) (by simp)
        | text => rfl

theorem pointer_iff {y : Operand} (hbrace : s.head? = some '{') :
    (∃ n, Numeral.braced? s = some n ∧ y = .pointer n) ↔ OperandText s y := by
  have hmem : '{' ∈ s := List.mem_of_head? hbrace
  constructor
  · intro h
    obtain ⟨n, hn, rfl⟩ := h
    obtain ⟨digits, rfl, h⟩ := braced?_iff.1 hn
    exact .pointer h
  · intro h
    cases h with
    | pointer h => exact ⟨_, braced?_iff.2 ⟨_, rfl, h⟩, rfl⟩
    | integer h => exact absurd (h.1.numeric _ hmem) (by decide)
    | float _ h => exact absurd (h.numeric _ hmem) (by decide)
    | text h => exact absurd hbrace h

/-- Where an operand starts matters to the failure only. -/
theorem operandRead_iff {start : Nat} {y : Operand} :
    Operand.read start s = .ok y ↔ OperandText s y := by
  unfold Operand.read
  split
  · next hbrace =>
    rw [← pointer_iff hbrace]
    cases Numeral.braced? s with
    | some n => simp [eq_comm]
    | none => simp
  · next hbrace =>
    rw [← ofLiteral_iff hbrace]
    simp

end Phrasing.Grammar
