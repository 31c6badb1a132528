import Phrasing.Proofs.Grammar.Body
import Phrasing.Proofs.Substitution

/-!
References: a text between braces, read in three places. Where a branch begins it is the target, after
an operator it is the operand, and in plain text it is a placeholder.

In a condition a reference is read just when its text is the ASCII digits of a number below `2 ^ 64`,
and as a placeholder it then has the same index. A placeholder that no condition takes has the index
that no list can hold.
-/

namespace Phrasing.Reference

open Grammar Outcome

/-- A text without blanks, quotes, braces and colons. -/
def IsBare (d : List Char) : Prop :=
  ∀ c ∈ d, Text.isBlank c = false ∧ c ∉ ['\'', '{', '}', ':']

instance (d : List Char) : Decidable (IsBare d) := List.decidableBAll _ d

def chars (d : List Char) : List Char := '{' :: d ++ ['}']

/-- A reader after a target. -/
def afterTarget (branches : List Branch) (n : Nat) : Pending := ⟨branches, .operator ⟨n, false⟩ ""⟩

/-- A reader after an operand that points. -/
def afterPointer (branches : List Branch) (head : Head) (o : Operator) (n : Nat) : Pending :=
  ⟨branches, .result ⟨head.target, o, head.negate, .pointer n⟩ ""⟩

/-- What comes of a reference where a branch begins. -/
def asTarget (branches : List Branch) (offset : Nat) (d : List Char) : Except Failure Pending :=
  Pending.feedAll ⟨branches, .target⟩ offset (chars d)

/-- What comes of a reference between an operator and the colon after the operand. -/
def asOperand (branches : List Branch) (head : Head) (o : Operator) (offset : Nat) (d : List Char) :
    Except Failure Pending :=
  Pending.feedAll ⟨branches, .operator head o.token⟩ offset (chars d ++ [':'])

variable {d : List Char} {branches : List Branch} {head : Head} {o : Operator} {offset n : Nat}
  {p : Pending} {c : Char}

theorem IsBare.of_mem (h : IsBare d) (hc : c ∈ d) :
    Text.isBlank c = false ∧ c ≠ '}' ∧ c ≠ ':' := by
  obtain ⟨hblank, hmem⟩ := h c hc
  simp only [List.mem_cons, not_or] at hmem
  exact ⟨hblank, hmem.2.2.1, hmem.2.2.2.1⟩

theorem IsBare.squeeze_chars (h : IsBare d) : squeeze (chars d) = chars d := by
  refine List.filter_eq_self.2 fun c hc ↦ ?_
  simp only [chars, List.cons_append, List.mem_cons, List.mem_append, List.not_mem_nil,
    or_false] at hc
  rcases hc with rfl | hc | rfl
  · decide
  · simp [(h.of_mem hc).1]
  · decide

theorem IsBare.colon_not_mem_chars (h : IsBare d) : ':' ∉ chars d := by
  have hmem : ':' ∉ d := fun hc ↦ (h.of_mem hc).2.2 rfl
  simp [chars, hmem]

/-! ## As a target -/

theorem feed_pointer {digits : String} (hblank : Text.isBlank c = false) :
    Pending.feed ⟨branches, .pointer digits⟩ offset c =
      (Stage.nextPointer digits offset c).map fun stage ↦ ⟨branches, stage⟩ := by
  rw [feed_of_ready (p := ⟨branches, .pointer digits⟩) trivial, if_neg (by simp [hblank])]
  rfl

theorem nextPointer_close {digits : String} {stage : Stage} :
    Stage.nextPointer digits offset '}' = .ok stage ↔
      ∃ n, Index digits.toList n ∧ stage = .operator ⟨n, false⟩ "" := by
  constructor
  · intro h
    cases step_of_nextPointer h with
    | digit hc => exact absurd hc (by decide)
    | target hn => exact ⟨_, index?_iff.1 hn, rfl⟩
  · intro h
    obtain ⟨n, hn, rfl⟩ := h
    have hdigit : ¬Char.isDigit '}' = true := by decide
    have hempty : ¬digits.isEmpty = true := fun h ↦
      hn.1.1.1 (String.toList_eq_nil_iff.2 (String.isEmpty_iff.1 h))
    rw [Stage.nextPointer, if_neg hdigit, if_neg (not_not_intro rfl), if_neg hempty,
      index?_iff.2 hn]

/-- The digits that were read and those that follow up to the brace are one number. -/
theorem feedAll_pointer {digits : String} (hd : IsBare d) :
    Pending.feedAll ⟨branches, .pointer digits⟩ offset (d ++ ['}']) = .ok p ↔
      ∃ n, Index (digits.toList ++ d) n ∧ p = afterTarget branches n := by
  induction d generalizing digits offset with
  | nil =>
    rw [List.nil_append, feedAll_cons, feed_pointer (by decide), List.append_nil]
    simp only [bind_eq_ok_iff, map_eq_ok_iff, nextPointer_close]
    constructor
    · intro h
      obtain ⟨-, ⟨-, ⟨n, hn, rfl⟩, rfl⟩, h⟩ := h
      exact ⟨n, hn, (Except.ok.inj h).symm⟩
    · intro h
      obtain ⟨n, hn, rfl⟩ := h
      exact ⟨_, ⟨_, ⟨n, hn, rfl⟩, rfl⟩, rfl⟩
  | cons c d ih =>
    obtain ⟨hblank, hbrace, -⟩ := hd.of_mem (List.mem_cons_self ..)
    have hd : IsBare d := fun c hc ↦ hd c (List.mem_cons_of_mem _ hc)
    rw [List.cons_append, feedAll_cons, feed_pointer hblank, Stage.nextPointer]
    by_cases hc : c.isDigit = true
    · rw [if_pos hc, List.append_cons digits.toList, ← String.toList_push]
      exact ih hd
    · rw [if_neg hc, if_pos hbrace]
      constructor
      · intro h
        cases h
      · intro h
        obtain ⟨n, hn, -⟩ := h
        exact absurd (hn.1.1.2 c (by simp)) hc

theorem asTarget_eq_ok_iff (hd : IsBare d) :
    asTarget branches offset d = .ok p ↔ ∃ n, Index d n ∧ p = afterTarget branches n := by
  have hopen : Pending.feed ⟨branches, .target⟩ offset '{' = .ok ⟨branches, .pointer ""⟩ := rfl
  rw [asTarget, chars, List.cons_append, feedAll_cons, hopen]
  exact feedAll_pointer hd

/-! ## As an operand -/

theorem operandText_chars_iff {x : Operand} :
    OperandText (chars d) x ↔ ∃ n, Index d n ∧ x = .pointer n := by
  have hbraced (n : Nat) : Numeral.braced? (chars d) = some n ↔ Index d n := by
    rw [braced?_iff]
    constructor
    · intro h
      obtain ⟨digits, heq, hn⟩ := h
      obtain rfl : d = digits := by simpa [chars] using heq
      exact hn
    · intro hn
      exact ⟨d, rfl, hn⟩
  rw [← pointer_iff rfl]
  simp only [hbraced]

theorem leads_operator_iff {goal : Stage} (ho : o ≠ .range) :
    Leads (.operator head o.token) (chars d) goal ↔
      ∃ n, Index d n ∧ goal = .result ⟨head.target, o, head.negate, .pointer n⟩ "" := by
  have hmark : Operator.isMark '{' = false := by decide
  have hbang : ¬('{' = '!' ∧ o.token.toList = []) := fun h ↦ absurd h.1 (by decide)
  simp only [Leads, chars, List.cons_append]
  rw [operatorLeads_cons, if_neg hbang, tokenLeads_cons_other hmark]
  constructor
  · intro h
    obtain ⟨o', htoken, -, x, hx, rfl⟩ := h
    obtain ⟨n, hn, rfl⟩ := operandText_chars_iff.1 hx
    obtain rfl : o' = o := eq_of_token_eq (String.toList_inj.1 htoken)
    exact ⟨n, hn, rfl⟩
  · intro h
    obtain ⟨n, hn, rfl⟩ := h
    exact ⟨o, rfl, ho, _, operandText_chars_iff.2 ⟨n, hn, rfl⟩, rfl⟩

theorem asOperand_eq_ok_iff (hd : IsBare d) (ho : o ≠ .range) :
    asOperand branches head o offset d = .ok p ↔
      ∃ n, Index d n ∧ p = afterPointer branches head o n := by
  have hready : Ready (.operator head o.token) := by
    intro htoken
    have hrange : o.token = Operator.range.token := htoken
    exact ho (eq_of_token_eq hrange)
  rw [asOperand, feedAll_head hready hd.colon_not_mem_chars, hd.squeeze_chars]
  simp only [leads_operator_iff ho]
  constructor
  · intro h
    obtain ⟨-, ⟨n, hn, rfl⟩, h⟩ := h
    exact ⟨n, hn, (Except.ok.inj h).symm⟩
  · intro h
    obtain ⟨n, hn, rfl⟩ := h
    exact ⟨_, ⟨n, hn, rfl⟩, rfl⟩

/-! ## As a placeholder -/

theorem placeholders_reference (hne : d ≠ []) (hdigits : ∀ c ∈ d, Text.isDigit c)
    (before after : String) :
    placeholders (before ++ String.ofList (chars d) ++ after) =
      placeholders before ++ Piece.index d :: placeholders after := by
  have hslot : Piece.splitSlot? (d ++ '}' :: after.toList) = some (d, after.toList) :=
    Piece.splitSlot?_eq_some_iff.2 ⟨hne, hdigits, rfl⟩
  have hchars : (before ++ String.ofList (chars d) ++ after).toList =
      before.toList ++ '{' :: (d ++ '}' :: after.toList) := by
    simp [chars]
  rw [placeholders, hchars, Piece.ofChars_append_brace, Piece.ofChars_slot hslot,
    List.filterMap_append]
  rfl

theorem index_of_index (h : Index d n) : Piece.index d = n := by
  rw [Piece.index, index?_iff.2 h, Option.getD_some]

theorem index_of_not_index (h : ¬∃ n, Index d n) : Piece.index d = Numeral.lastIndex := by
  have hnone : Numeral.index? d = none :=
    Option.eq_none_iff_forall_ne_some.2 fun n hn ↦ h ⟨n, index?_iff.1 hn⟩
  rw [Piece.index, hnone, Option.getD_none]

/-! ## In all three places -/

theorem asTarget_iff (hd : IsBare d) :
    asTarget branches offset d = .ok (afterTarget branches n) ↔ Index d n := by
  rw [asTarget_eq_ok_iff hd]
  simp [afterTarget]

theorem asOperand_iff (hd : IsBare d) (ho : o ≠ .range) :
    asOperand branches head o offset d = .ok (afterPointer branches head o n) ↔ Index d n := by
  rw [asOperand_eq_ok_iff hd ho]
  simp [afterPointer]

theorem placeholders_of_index (h : Index d n) (before after : String) :
    placeholders (before ++ String.ofList (chars d) ++ after) =
      placeholders before ++ n :: placeholders after := by
  obtain ⟨hne, hdigits⟩ := h.1.1
  rw [placeholders_reference hne fun c hc ↦ Text.isDigit_of_ascii (hdigits c hc), index_of_index h]

theorem refused_of_not_index (hd : IsBare d) (ho : o ≠ .range) (h : ¬∃ n, Index d n)
    (start : Nat) : (∃ failure, asTarget branches offset d = .error failure) ∧
      ∃ failure, asOperand branches head o start d = .error failure := by
  constructor
  · refine exists_error_of_ne_ok fun p hp ↦ ?_
    obtain ⟨n, hn, -⟩ := (asTarget_eq_ok_iff hd).1 hp
    exact h ⟨n, hn⟩
  · refine exists_error_of_ne_ok fun p hp ↦ ?_
    obtain ⟨n, hn, -⟩ := (asOperand_eq_ok_iff hd ho).1 hp
    exact h ⟨n, hn⟩

theorem not_index_of_refused (hd : IsBare d) (ho : o ≠ .range) {start : Nat} {failure : Failure}
    (h : asTarget branches offset d = .error failure ∨
      asOperand branches head o start d = .error failure) : ¬∃ n, Index d n := by
  intro hindex
  obtain ⟨n, hn⟩ := hindex
  rcases h with h | h
  · cases h.symm.trans ((asTarget_iff hd).2 hn)
  · cases h.symm.trans ((asOperand_iff hd ho).2 hn)

/-- A reference is a target just when it is an operand that points, with the same index: the number
that its digits make. It is then a placeholder with that index. Any other reference is refused in both
places of a condition, and if it is a placeholder, it has the index that no list can hold. -/
theorem readers_agree (hd : IsBare d) (branches : List Branch) (head : Head) (ho : o ≠ .range)
    (offset start : Nat) :
    (∀ n, asTarget branches offset d = .ok (afterTarget branches n) ↔
      asOperand branches head o start d = .ok (afterPointer branches head o n)) ∧
    (∀ n, asTarget branches offset d = .ok (afterTarget branches n) →
      Index d n ∧ ∀ before after : String,
        placeholders (before ++ String.ofList (chars d) ++ after) =
          placeholders before ++ n :: placeholders after) ∧
    (∀ n, Index d n → asTarget branches offset d = .ok (afterTarget branches n)) ∧
    ((∃ n, Index d n) ∨ (∃ failure, asTarget branches offset d = .error failure) ∧
      ∃ failure, asOperand branches head o start d = .error failure) ∧
    ∀ (text : String) (failure : Failure), .slot d ∈ Piece.ofChars text.toList →
      asTarget branches offset d = .error failure ∨
        asOperand branches head o start d = .error failure →
      ∀ before after : String, placeholders (before ++ String.ofList (chars d) ++ after) =
        placeholders before ++ Numeral.lastIndex :: placeholders after := by
  refine ⟨fun n ↦ (asTarget_iff hd).trans (asOperand_iff hd ho).symm, fun n h ↦ ?_,
    fun n ↦ (asTarget_iff hd).2, ?_, ?_⟩
  · have hn := (asTarget_iff hd).1 h
    exact ⟨hn, placeholders_of_index hn⟩
  · exact Classical.or_iff_not_imp_left.2 fun h ↦ refused_of_not_index hd ho h start
  · intro text failure hslot hrefused before after
    obtain ⟨hne, hdigits⟩ := Piece.isDigit_of_mem_ofChars hslot
    have hnone := not_index_of_refused hd ho hrefused
    rw [placeholders_reference hne hdigits, index_of_not_index hnone]

/-- Zeros may stand first, and `2 ^ 64` and the digits of other scripts are placeholders only. -/
theorem readers_agree_digits :
    (IsBare "007".toList ∧ asTarget [] 1 "007".toList = .ok (afterTarget [] 7) ∧
      asOperand [] ⟨0, true⟩ .less 6 "007".toList = .ok (afterPointer [] ⟨0, true⟩ .less 7) ∧
      placeholders ("a" ++ String.ofList (chars "007".toList) ++ "b") = [7]) ∧
    ∀ d ∈ ["18446744073709551616".toList, "٣".toList],
      IsBare d ∧ .slot d ∈ Piece.ofChars (String.ofList (chars d)).toList ∧
        (∃ failure, asTarget [] 1 d = .error failure) ∧
        placeholders ("a" ++ String.ofList (chars d) ++ "b") = [Numeral.lastIndex] := by
  have hless : Operator.less ≠ .range := by decide
  have ha : placeholders "a" = [] := by decide +kernel
  have hb : placeholders "b" = [] := by decide +kernel
  constructor
  · have hbare : IsBare "007".toList := by decide
    have hindex : Index "007".toList 7 := index?_iff.1 (by decide)
    obtain ⟨hsame, hplaceholder, htarget, -⟩ := readers_agree hbare [] ⟨0, true⟩ hless 1 6
    refine ⟨hbare, htarget 7 hindex, (hsame 7).1 (htarget 7 hindex), ?_⟩
    rw [(hplaceholder 7 (htarget 7 hindex)).2, ha, hb]
    rfl
  · intro d hd
    have hfacts : IsBare d ∧ .slot d ∈ Piece.ofChars (String.ofList (chars d)).toList ∧
        Numeral.index? d = none := by
      revert d
      decide +kernel
    obtain ⟨hbare, hslot, hnone⟩ := hfacts
    obtain ⟨-, -, -, hrefused, hlast⟩ := readers_agree hbare [] ⟨0, true⟩ hless 1 6
    have hnot : ¬∃ n, Index d n := fun ⟨n, hn⟩ ↦ by cases hnone.symm.trans (index?_iff.2 hn)
    obtain ⟨⟨failure, hfailure⟩, -⟩ := hrefused.resolve_left hnot
    refine ⟨hbare, hslot, ⟨failure, hfailure⟩, ?_⟩
    rw [hlast _ failure hslot (.inl hfailure), ha, hb]
    rfl

end Phrasing.Reference
