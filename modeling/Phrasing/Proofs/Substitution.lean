import Mathlib.Logic.ExistsUnique
import Phrasing.Proofs.Placeholder

/-!
A text has one split into characters and tokens such that no token is left out. Putting arguments in
replaces each token and nothing else, and fails at the leftmost token that has no argument.
-/

namespace Phrasing

namespace Piece

/-- A split of a text: its pieces make up the text, and wherever braces with digits between them
stand in it, they are a piece of their own. -/
structure IsSplit (s : List Char) (pieces : List Piece) : Prop where
  chars_eq : pieces.flatMap chars = s
  isDigit {digits : List Char} :
    slot digits ∈ pieces → digits ≠ [] ∧ ∀ c ∈ digits, Text.isDigit c
  exists_slot {before digits after : List Char} (hne : digits ≠ [])
    (hdigits : ∀ c ∈ digits, Text.isDigit c) (h : s = before ++ ('{' :: digits ++ '}' :: after)) :
    ∃ front back, pieces = front ++ slot digits :: back ∧
      front.flatMap chars = before ∧ back.flatMap chars = after

variable {s before digits after : List Char} {piece : Piece} {pieces pieces' : List Piece} {c : Char}

theorem chars_ne_nil (piece : Piece) : piece.chars ≠ [] := by
  cases piece <;> simp [chars]

theorem flatMap_chars_eq_nil_iff : pieces.flatMap chars = [] ↔ pieces = [] := by
  cases pieces with
  | nil => simp
  | cons piece pieces => simp [chars_ne_nil]

theorem flatMap_chars_ofChars (s : List Char) : (ofChars s).flatMap chars = s := by
  induction s using ofChars.induct with
  | case1 => simp [ofChars]
  | case2 s digits rest hslot ih =>
    rw [ofChars_slot hslot, List.flatMap_cons, ih, (splitSlot?_eq_some_iff.1 hslot).2.2]
    simp [chars]
  | case3 s hslot ih =>
    rw [ofChars_literal fun _ ↦ hslot, List.flatMap_cons, ih]
    rfl
  | case4 c s hc ih =>
    rw [ofChars_literal fun h ↦ absurd h hc, List.flatMap_cons, ih]
    rfl

theorem isDigit_of_mem_ofChars (h : slot digits ∈ ofChars s) :
    digits ≠ [] ∧ ∀ c ∈ digits, Text.isDigit c := by
  induction s using ofChars.induct with
  | case1 => simp [ofChars] at h
  | case2 s digits' rest hslot ih =>
    rw [ofChars_slot hslot] at h
    rcases List.mem_cons.1 h with h | h
    · obtain rfl := slot.inj h
      obtain ⟨hne, hdigits, -⟩ := splitSlot?_eq_some_iff.1 hslot
      exact ⟨hne, hdigits⟩
    · exact ih h
  | case3 s hslot ih =>
    rw [ofChars_literal fun _ ↦ hslot] at h
    exact ih (List.mem_of_ne_of_mem (by simp) h)
  | case4 c s hc ih =>
    rw [ofChars_literal fun h ↦ absurd h hc] at h
    exact ih (List.mem_of_ne_of_mem (by simp) h)

theorem isSplit_ofChars (s : List Char) : IsSplit s (ofChars s) where
  chars_eq := flatMap_chars_ofChars s
  isDigit h := isDigit_of_mem_ofChars h
  exists_slot := by
    intro before digits after hne hdigits hs
    have hslot : splitSlot? (digits ++ '}' :: after) = some (digits, after) :=
      splitSlot?_eq_some_iff.2 ⟨hne, hdigits, rfl⟩
    refine ⟨ofChars before, ofChars after, ?_, flatMap_chars_ofChars _, flatMap_chars_ofChars _⟩
    rw [hs, List.cons_append, ofChars_append_brace, ofChars_slot hslot]

/-- What follows the first piece of a split is a split. -/
theorem IsSplit.tail (h : IsSplit (piece.chars ++ s) (piece :: pieces)) : IsSplit s pieces where
  chars_eq := by
    have hchars := h.chars_eq
    rw [List.flatMap_cons] at hchars
    exact List.append_cancel_left hchars
  isDigit hmem := h.isDigit (List.mem_cons_of_mem _ hmem)
  exists_slot := by
    intro before digits after hne hdigits hs
    obtain ⟨front, back, heq, hbefore, hafter⟩ :=
      @h.exists_slot (piece.chars ++ before) digits after hne hdigits (by rw [hs, List.append_assoc])
    cases front with
    | nil => exact absurd (List.append_eq_nil_iff.1 hbefore.symm).1 piece.chars_ne_nil
    | cons first front =>
      obtain ⟨rfl, rfl⟩ := List.cons.inj heq
      rw [List.flatMap_cons] at hbefore
      exact ⟨front, back, rfl, List.append_cancel_left hbefore, hafter⟩

theorem IsSplit.eq_slot (h : IsSplit s (piece :: pieces)) (hne : digits ≠ [])
    (hdigits : ∀ c ∈ digits, Text.isDigit c) (hs : (slot digits).chars ++ after = s) :
    piece = slot digits := by
  obtain ⟨front, back, heq, hfront, -⟩ :=
    @h.exists_slot [] digits after hne hdigits (by simp [← hs, chars])
  rw [flatMap_chars_eq_nil_iff] at hfront
  rw [hfront] at heq
  exact (List.cons.inj heq).1

theorem IsSplit.unique (h : IsSplit s pieces) (h' : IsSplit s pieces') : pieces = pieces' := by
  induction pieces generalizing s pieces' with
  | nil =>
    have hnil := h'.chars_eq
    rw [← h.chars_eq, List.flatMap_nil, flatMap_chars_eq_nil_iff] at hnil
    exact hnil.symm
  | cons piece pieces ih =>
    have hs := h.chars_eq
    rw [List.flatMap_cons] at hs
    cases pieces' with
    | nil =>
      have hnil := h'.chars_eq
      rw [← hs, List.flatMap_nil] at hnil
      exact absurd (List.append_eq_nil_iff.1 hnil.symm).1 piece.chars_ne_nil
    | cons piece' pieces' =>
      have hs' := h'.chars_eq
      rw [List.flatMap_cons] at hs'
      have hpiece : piece = piece' := by
        cases piece with
        | slot digits =>
          obtain ⟨hne, hdigits⟩ := h.isDigit (List.mem_cons_self ..)
          exact (h'.eq_slot hne hdigits hs).symm
        | literal c =>
          cases piece' with
          | slot digits =>
            obtain ⟨hne, hdigits⟩ := h'.isDigit (List.mem_cons_self ..)
            exact h.eq_slot hne hdigits hs'
          | literal c' =>
            rw [← hs] at hs'
            rw [(List.cons.inj hs').1]
      subst hpiece
      subst hs
      rw [ih h.tail h'.tail]

end Piece

/-- A text has just one split. Its placeholders are the tokens of the split from left to right, and
with the arguments put in the text is the pieces of the split with each token replaced; otherwise
the leftmost token without an argument tells why. -/
theorem substitute_split (text : String) :
    (∃! pieces, Piece.IsSplit text.toList pieces) ∧
    ∀ pieces, Piece.IsSplit text.toList pieces →
      placeholders text = pieces.filterMap Piece.index? ∧
      ∀ args,
        (∀ output, substitute text args = .ok output ↔
          (∀ i ∈ placeholders text, Given args i) ∧
            output = String.ofList (pieces.flatMap (Piece.shown args))) ∧
        ∀ failure, substitute text args = .error failure ↔
          ∃ before i after, placeholders text = before ++ i :: after ∧
            (∀ j ∈ before, Given args j) ∧ Absent args i failure := by
  have hsplit := Piece.isSplit_ofChars text.toList
  refine ⟨⟨_, hsplit, fun _ h ↦ h.unique hsplit⟩, fun pieces h ↦ ?_⟩
  obtain rfl := h.unique hsplit
  exact ⟨rfl, fun args ↦
    ⟨fun output ↦ substitute_eq_ok_iff, fun failure ↦ substitute_eq_error_iff⟩⟩

/-- Braces within and around a token stay, and so do those that an argument brings along. -/
theorem substitute_split_braces :
    let text := "\x7b{0}\x7b0{1}\x7d \x7b1"
    Piece.IsSplit text.toList (Piece.ofChars text.toList) ∧
      substitute text [.text "{1}", .integer 7] = .ok "\x7b{1}\x7b07\x7d \x7b1" ∧
      substitute text [.text "{1}"] = .error (.missingArgument 1 1) := by
  intro text
  have hsplit := Piece.isSplit_ofChars text.toList
  obtain ⟨-, h⟩ := (substitute_split text).2 _ hsplit
  have hplaceholders : placeholders text = [0, 1] := by decide +kernel
  refine ⟨hsplit, ((h _).1 _).2 ⟨?_, by decide +kernel⟩,
    ((h _).2 _).2 ⟨[0], 1, [], hplaceholders, ?_, .missing (by decide)⟩⟩
  · rw [hplaceholders]
    simp [Given, Value.isNull]
  · simp [Given, Value.isNull]

end Phrasing
