import Phrasing.Condition.Digest
import Phrasing.Proofs.BranchData
import Phrasing.Proofs.Overflow
import Phrasing.Proofs.Printing.ComparisonText
import Phrasing.Proofs.Source

/-!
The doubles of a compiled template. Each is what a part of the source is read as, never something
that is no number, and infinite just where the number written there is beyond the doubles.
-/

namespace Phrasing

open Binary64 (overflow)

namespace Grammar

variable {s t digits : List Char} {n : Nat} {i : Int} {x : Binary64} {y : Operand} {c : Comparison}
  {b : Branch} {branches : List Branch} {fallback : String}

/-- A decimal number with an optional sign, so great that it is rounded to infinity. -/
inductive Overflows : List Char → Prop
  | mk {sign body : List Char} {negative : Bool} {d : Decimal} (hsign : Sign sign negative)
      (hbody : Unsigned body d) (h : overflow * d.denominator ≤ d.numerator) :
      Overflows (sign ++ body)

theorem Real.isFinite_iff (h : Real s x) : x.isFinite = true ↔ ¬Overflows s := by
  constructor
  · intro hfinite hoverflows
    obtain ⟨hsign, hbody, hover⟩ := hoverflows
    have hread := (Real.mk hsign hbody).read?.symm.trans h.read?
    obtain rfl := Option.some.inj hread
    rw [Decimal.isFinite_toBinary64_iff] at hfinite
    omega
  · intro hinside
    obtain ⟨hsign, hbody⟩ := h
    rw [Decimal.isFinite_toBinary64_iff]
    apply Nat.lt_of_not_le
    intro hover
    exact hinside (.mk hsign hbody hover)

theorem Whole.real (h : Whole s n) : Real s (Decimal.toBinary64 false ⟨n, 0⟩) :=
  .mk .absent h.unsigned

theorem Literal.isLiteral (h : Literal s i) : Numeral.isLiteral i = true := by
  obtain ⟨-, hlow, hhigh⟩ := h
  simp only [Numeral.isLiteral, Bool.and_eq_true, decide_eq_true_eq]
  exact ⟨hlow, hhigh⟩

theorem OperandText.inLimits (h : OperandText s y) : y.InLimits := by
  cases h with
  | pointer h => exact h.2
  | integer h => exact h.isLiteral
  | float | text => trivial

theorem OperandText.real (h : OperandText s y) (hx : x ∈ y.doubles) : Real s x := by
  cases h with
  | float _ h =>
    obtain rfl := List.mem_singleton.1 hx
    exact h
  | pointer | integer | text => cases hx

theorem ComparisonText.inLimits (h : ComparisonText s c) :
    c.target < Numeral.indexLimit ∧ c.operand.InLimits := by
  cases h with
  | plain htarget _ _ _ _ hx => exact ⟨htarget.2, hx.inLimits⟩
  | range htarget => exact ⟨htarget.2, trivial⟩

theorem suffix_pointer (digits rest : List Char) : rest <:+ '{' :: (digits ++ '}' :: rest) :=
  ((List.suffix_cons _ _).trans (List.suffix_append _ _)).trans (List.suffix_cons _ _)

/-- Each double of a comparison is what a part of its text is read as. -/
theorem ComparisonText.exists_real (h : ComparisonText s c) (hx : x ∈ c.operand.doubles) :
    ∃ part, part <:+: s ∧ Real part x := by
  cases h with
  | @plain digits operand n negate o y htarget ho hne hcolon hunmarked hy =>
    have hsuffix : operand <:+ (if negate then ['!'] else []) ++ (o.token.toList ++ operand) :=
      (List.suffix_append _ _).trans (List.suffix_append _ _)
    exact ⟨operand, (hsuffix.trans (suffix_pointer digits _)).isInfix, hy.real hx⟩
  | @range digits low high n l h negate htarget hlow hhigh =>
    have hsuffix : low ++ '.' :: '.' :: high <:+
        (if negate then ['!'] else []) ++ '~' :: (low ++ '.' :: '.' :: high) :=
      (List.suffix_cons _ _).trans (List.suffix_append _ _)
    have hrange := (hsuffix.trans (suffix_pointer digits _)).isInfix
    rcases List.mem_cons.1 hx with rfl | hx
    · exact ⟨low, (List.prefix_append _ _).isInfix.trans hrange, hlow.real⟩
    · obtain rfl := List.mem_singleton.1 hx
      have hhigher : high <:+ low ++ '.' :: '.' :: high :=
        ((List.suffix_cons _ _).trans (List.suffix_cons _ _)).trans (List.suffix_append _ _)
      exact ⟨high, hhigher.isInfix.trans hrange, hhigh.real⟩

/-- What stands in a text without its blanks stands in the text with them. -/
theorem exists_infix_of_squeeze (h : t <:+: squeeze s) : ∃ part, part <:+: s ∧ squeeze part = t := by
  obtain ⟨before, after, heq⟩ := h
  obtain ⟨front, back, rfl, hfront, -⟩ := List.filter_eq_append_iff.1 heq.symm
  obtain ⟨front', part, rfl, -, hpart⟩ := List.filter_eq_append_iff.1 hfront
  exact ⟨part, ⟨front', back, rfl⟩, hpart⟩

theorem Body.inLimits (h : Body s branches fallback) : ∀ b ∈ branches, b.InLimits := by
  induction h with
  | fallback => simp
  | branch hhead _ _ ih => exact List.forall_mem_cons.2 ⟨hhead.inLimits, ih⟩

theorem Body.exists_real (h : Body s branches fallback) (hb : b ∈ branches)
    (hx : x ∈ b.operand.doubles) : ∃ part, part <:+: s ∧ Real (squeeze part) x := by
  induction h with
  | fallback => cases hb
  | @branch head result rest c branches fallback hhead hresult hrest ih =>
    rcases List.mem_cons.1 hb with rfl | hb
    · obtain ⟨squeezed, hsqueezed, hreal⟩ := hhead.exists_real hx
      obtain ⟨part, hpart, rfl⟩ := exists_infix_of_squeeze hsqueezed
      exact ⟨part, hpart.trans (List.prefix_append _ _).isInfix, hreal⟩
    · obtain ⟨part, hpart, hreal⟩ := ih hb
      have hresult : rest <:+ ':' :: (result ++ '|' :: rest) :=
        ((List.suffix_cons _ _).trans (List.suffix_append _ _)).trans (List.suffix_cons _ _)
      exact ⟨part, hpart.trans (hresult.trans (List.suffix_append _ _)).isInfix, hreal⟩

end Grammar

namespace Source

open Grammar

variable {parts : List (List Char)} {conditions : List Stamped} {source tail : String}
  {t : Template} {s : Stamped} {b : Branch} {x : Binary64}

theorem infix_of_mem_splitOn {α : Type} [BEq α] [LawfulBEq α] {a : α} {part text : List α}
    (h : part ∈ text.splitOn a) : part <:+: text := by
  obtain ⟨k, hk⟩ := List.mem_iff_getElem?.1 h
  have hplace : ((text.splitOn a).intersperse [a])[2 * k]? = some part := by
    rw [List.getElem?_intersperse_two_mul, hk]
  have hjoined : ((text.splitOn a).intersperse [a]).flatten = text := List.intercalate_splitOn a
  have hinfix := List.infix_of_mem_flatten (List.mem_of_getElem? hplace)
  rw [hjoined] at hinfix
  exact hinfix

variable [Hasher]

theorem Parts.exists_body (h : Parts parts conditions tail) (hs : s ∈ conditions) :
    ∃ body ∈ parts, ∃ fallback, Body body s.condition.branches fallback := by
  induction h with
  | tail => cases hs
  | condition plain hne hbody hparts ih =>
    rcases List.mem_cons.1 hs with rfl | hs
    · exact ⟨_, by simp, _, hbody⟩
    · obtain ⟨body, hmem, hbody⟩ := ih hs
      exact ⟨body, by simp [hmem], hbody⟩

/-- The doubles of a compiled template are what parts of its source are read as. They are infinite
just where the number written is beyond the doubles, and a branch is read from its data just when
none of its doubles is. -/
theorem doubles_of_compile (h : compile source = .ok t) (hs : s ∈ t.conditions)
    (hb : b ∈ s.condition.branches) :
    (∀ x ∈ b.operand.doubles, x.isNan = false ∧ ∃ part, part <:+: source.toList ∧
      Real (squeeze part) x ∧ (x.isFinite = true ↔ ¬Overflows (squeeze part))) ∧
    Branch.ofValue? b.toValue =
      if ∀ x ∈ b.operand.doubles, x.isFinite = true then some b else none := by
  obtain ⟨body, hmem, fallback, hbody⟩ := (compile_iff.1 h).1.exists_body hs
  constructor
  · intro x hx
    obtain ⟨part, hpart, hreal⟩ := hbody.exists_real hb hx
    exact ⟨hreal.not_isNan, part, hpart.trans (infix_of_mem_splitOn hmem), hreal, hreal.isFinite_iff⟩
  · rw [Branch.ofValue?_toValue (hbody.inLimits b hb)]
    simp only [List.all_eq_true]

omit [Hasher] in
/-- The greatest power of ten that is a double, and the next one. -/
theorem doubles_of_compile_powers :
    let source := "'{0}<1e308:little|{0}<1e309:some|*:much'"
    ∃ t s b c, @compile Digest.hasher source = .ok t ∧ s ∈ t.conditions ∧
      b ∈ s.condition.branches ∧ c ∈ s.condition.branches ∧
      (∀ x ∈ b.operand.doubles, x.isFinite = true) ∧ Branch.ofValue? b.toValue = some b ∧
      c.operand = .float (.infinity false) ∧ Branch.ofValue? c.toValue = none ∧
      ∃ part, part <:+: source.toList ∧ Overflows (squeeze part) := by
  intro source
  let _ := Digest.hasher
  have hbranches : ((compile source).toOption.bind fun t ↦ t.conditions[0]?).any fun s ↦
      s.condition.branches[0]?.any (fun b ↦ b.operand.doubles.all Binary64.isFinite) ∧
      s.condition.branches[1]?.any (fun c ↦ c.operand == .float (.infinity false)) := by
    decide +kernel
  obtain ⟨s, hs, hbranches⟩ := (Option.any_eq_true _ _).1 hbranches
  obtain ⟨t, ht, hs⟩ := Option.bind_eq_some_iff.1 hs
  obtain ⟨hb, hc⟩ := of_decide_eq_true hbranches
  obtain ⟨b, hb, hfinite⟩ := (Option.any_eq_true _ _).1 hb
  obtain ⟨c, hc, hinfinite⟩ := (Option.any_eq_true _ _).1 hc
  replace hfinite := List.all_eq_true.1 hfinite
  replace hinfinite := eq_of_beq hinfinite
  have h := Outcome.toOption_eq_some_iff.1 ht
  replace hs := List.mem_of_getElem? hs
  replace hb := List.mem_of_getElem? hb
  replace hc := List.mem_of_getElem? hc
  obtain ⟨-, hdecode⟩ := doubles_of_compile h hs hb
  obtain ⟨hread, hdecode'⟩ := doubles_of_compile h hs hc
  rw [hinfinite] at hread hdecode'
  obtain ⟨-, part, hpart, -, hover⟩ := hread (.infinity false) (by simp [Operand.doubles])
  refine ⟨t, s, b, c, h, hs, hb, hc, hfinite, ?_, hinfinite, ?_, part, hpart, ?_⟩
  · rw [hdecode, if_pos hfinite]
  · rw [hdecode', if_neg]
    simp [Operand.doubles, Binary64.isFinite]
  · apply Classical.byContradiction
    intro hinside
    cases hover.2 hinside

end Source

end Phrasing
