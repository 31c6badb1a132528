import Phrasing.Placeholder
import Phrasing.Proofs.Outcome

/-!
Placeholders of texts put together, and when the arguments can be put in.
-/

namespace Phrasing

open Outcome

namespace Piece

/-- The text ends after a brace and digits only, so that more text could close a placeholder. -/
def IsOpen (s : List Char) : Prop :=
  ∃ before digits, s = before ++ '{' :: digits ∧ ∀ c ∈ digits, Text.isDigit c

variable {s t digits rest : List Char} {c : Char}

theorem IsOpen.append (h : IsOpen t) : IsOpen (s ++ t) := by
  obtain ⟨before, digits, rfl, hdigits⟩ := h
  exact ⟨s ++ before, digits, by simp, hdigits⟩

theorem not_isOpen_of_getLast? (hlast : s.getLast? = some c) (hbrace : c ≠ '{')
    (hdigit : Text.isDigit c = false) : ¬IsOpen s := by
  intro h
  obtain ⟨before, digits, rfl, hdigits⟩ := h
  rw [List.getLast?_append, List.getLast?_cons, Option.some_or] at hlast
  have hc := Option.some.inj hlast
  cases hd : digits.getLast? with
  | none =>
    rw [hd] at hc
    exact hbrace hc.symm
  | some d =>
    rw [hd, Option.getD_some] at hc
    rw [← hc, hdigits d (List.mem_of_getLast? hd)] at hdigit
    cases hdigit

theorem splitSlot?_eq_some_iff : splitSlot? s = some (digits, rest) ↔
    digits ≠ [] ∧ (∀ c ∈ digits, Text.isDigit c) ∧ s = digits ++ '}' :: rest := by
  have hbrace : Text.isDigit '}' = false := by decide
  constructor
  · intro h
    have hcut := List.takeWhile_append_dropWhile (p := Text.isDigit) (l := s)
    have hall := List.all_takeWhile (p := Text.isDigit) (l := s)
    unfold splitSlot? at h
    split at h
    · next htake hdrop =>
      cases h
      rw [htake, hdrop] at hcut
      rw [htake] at hall
      exact ⟨by simp, List.all_eq_true.1 hall, hcut.symm⟩
    · cases h
  · intro h
    obtain ⟨hne, hdigits, rfl⟩ := h
    obtain ⟨d, digits, rfl⟩ := List.exists_cons_of_ne_nil hne
    rw [splitSlot?, List.takeWhile_append_of_pos hdigits, List.dropWhile_append_of_pos hdigits]
    simp [hbrace]

/-- A slot is closed before the texts meet, or by the second text after digits only. -/
theorem splitSlot?_append (h : splitSlot? (s ++ t) = some (digits, rest)) :
    (∃ rest', splitSlot? s = some (digits, rest')) ∨
      ∃ more, digits = s ++ more ∧ t = more ++ '}' :: rest := by
  obtain ⟨hne, hdigits, heq⟩ := splitSlot?_eq_some_iff.1 h
  rcases List.append_eq_append_iff.1 heq with ⟨more, rfl, ht⟩ | ⟨more, rfl, hmore⟩
  · exact .inr ⟨more, rfl, ht⟩
  · cases more with
    | nil => exact .inr ⟨[], by simp, by simpa using hmore.symm⟩
    | cons d more =>
      obtain ⟨rfl, rfl⟩ := List.cons.inj hmore
      exact .inl ⟨more, splitSlot?_eq_some_iff.2 ⟨hne, hdigits, rfl⟩⟩

theorem splitSlot?_append_eq_none (hopen : ¬IsOpen ('{' :: s)) (h : splitSlot? s = none) :
    splitSlot? (s ++ t) = none := by
  refine Option.eq_none_iff_forall_ne_some.2 fun (digits, rest) hsome ↦ ?_
  have hdigits := (splitSlot?_eq_some_iff.1 hsome).2.1
  rcases splitSlot?_append hsome with ⟨rest', hslot⟩ | ⟨more, rfl, -⟩
  · cases h.symm.trans hslot
  · exact hopen ⟨[], s, rfl, fun c hc ↦ hdigits c (List.mem_append_left _ hc)⟩

/-- A brace is no digit, so that it closes nothing. -/
theorem splitSlot?_append_brace_eq_none (h : splitSlot? s = none) :
    splitSlot? (s ++ '{' :: t) = none := by
  refine Option.eq_none_iff_forall_ne_some.2 fun (digits, rest) hsome ↦ ?_
  have hdigits := (splitSlot?_eq_some_iff.1 hsome).2.1
  rcases splitSlot?_append hsome with ⟨rest', hslot⟩ | ⟨more, rfl, hmore⟩
  · cases h.symm.trans hslot
  · cases more with
    | nil => cases hmore
    | cons d more =>
      obtain ⟨rfl, -⟩ := List.cons.inj hmore
      exact absurd (hdigits '{' (by simp)) (by decide)

theorem ofChars_slot (h : splitSlot? s = some (digits, rest)) :
    ofChars ('{' :: s) = slot digits :: ofChars rest := by
  rw [ofChars, if_pos rfl]
  split
  · next hsome =>
    cases h.symm.trans hsome
    rfl
  · next hnone => cases h.symm.trans hnone

theorem ofChars_literal (h : c = '{' → splitSlot? s = none) :
    ofChars (c :: s) = literal c :: ofChars s := by
  rw [ofChars]
  split
  · next hc =>
    split
    · next hsome => cases (h hc).symm.trans hsome
    · rfl
  · rfl

theorem ofChars_of_not_mem (h : '{' ∉ s) : ofChars s = s.map literal := by
  induction s with
  | nil => simp [ofChars]
  | cons c s ih =>
    obtain ⟨hc, hs⟩ : c ≠ '{' ∧ '{' ∉ s := by simpa [eq_comm] using h
    rw [ofChars_literal fun heq ↦ absurd heq hc, ih hs, List.map_cons]

/-- Texts are cut apart where they meet if what follows closes no slot of the first. -/
theorem ofChars_append_of_splitSlot? (h : ∀ before after, s = before ++ '{' :: after →
    splitSlot? after = none → splitSlot? (after ++ t) = none) :
    ofChars (s ++ t) = ofChars s ++ ofChars t := by
  -- a slot takes several characters at once, so the recursion is on the length
  induction hn : s.length using Nat.strongRecOn generalizing s with
  | ind n ih =>
    cases s with
    | nil => simp [ofChars]
    | cons c s =>
      have htail : ofChars (s ++ t) = ofChars s ++ ofChars t := by
        refine ih s.length (by simp [← hn]) (fun before after hs ↦ h (c :: before) after ?_) rfl
        rw [hs, List.cons_append]
      by_cases hc : c = '{'
      · subst hc
        cases hslot : splitSlot? s with
        | none =>
          rw [List.cons_append, ofChars_literal fun _ ↦ h [] s rfl hslot,
            ofChars_literal fun _ ↦ hslot, htail, List.cons_append]
        | some slot =>
          obtain ⟨digits, rest⟩ := slot
          obtain ⟨hne, hdigits, rfl⟩ := splitSlot?_eq_some_iff.1 hslot
          have hlt : rest.length < n := by
            simp only [List.length_cons, List.length_append] at hn
            omega
          have hrest : ofChars (rest ++ t) = ofChars rest ++ ofChars t := by
            refine ih _ hlt (fun before after hs ↦ h ('{' :: digits ++ '}' :: before) after ?_) rfl
            simp [hs]
          have hmore : splitSlot? (digits ++ '}' :: rest ++ t) = some (digits, rest ++ t) :=
            splitSlot?_eq_some_iff.2 ⟨hne, hdigits, by simp⟩
          rw [List.cons_append, ofChars_slot hmore, ofChars_slot hslot, hrest, List.cons_append]
      · rw [List.cons_append, ofChars_literal fun h ↦ absurd h hc,
          ofChars_literal fun h ↦ absurd h hc, htail, List.cons_append]

/-- A text that is not open at its end is cut into its own pieces, whatever follows it. -/
theorem ofChars_append (hopen : ¬IsOpen s) : ofChars (s ++ t) = ofChars s ++ ofChars t := by
  refine ofChars_append_of_splitSlot? fun before after hs ↦ splitSlot?_append_eq_none ?_
  intro h
  rw [hs] at hopen
  exact hopen h.append

/-- Any text is cut into its own pieces before a brace. -/
theorem ofChars_append_brace (s t : List Char) :
    ofChars (s ++ '{' :: t) = ofChars s ++ ofChars ('{' :: t) :=
  ofChars_append_of_splitSlot? fun _ _ _ ↦ splitSlot?_append_brace_eq_none

theorem placeholders_append {s t : String} (hopen : ¬IsOpen s.toList) :
    placeholders (s ++ t) = placeholders s ++ placeholders t := by
  rw [placeholders, String.toList_append, ofChars_append hopen, List.filterMap_append]
  rfl

end Piece

/-- There is an argument at the index, and it is not null. -/
def Given (args : List Value) (i : Nat) : Prop :=
  ∃ value, args[i]? = some value ∧ value.isNull = false

/-- Why no argument is given at an index. -/
inductive Absent (args : List Value) (i : Nat) : Failure → Prop
  | missing (h : args.length ≤ i) : Absent args i (.missingArgument i args.length)
  | null (h : args[i]? = some .null) : Absent args i (.nullArgument i)

variable {args : List Value} {i : Nat} {failure : Failure} {value : Value}

theorem resolve_eq_ok_iff :
    resolve args i = .ok value ↔ args[i]? = some value ∧ value.isNull = false := by
  constructor
  · intro h
    unfold resolve at h
    split at h
    · cases h
    · next found hfound =>
      split at h
      · cases h
      · next hnull =>
        obtain rfl := Except.ok.inj h
        exact ⟨hfound, by simpa using hnull⟩
  · intro h
    obtain ⟨hvalue, hnull⟩ := h
    simp [resolve, hvalue, hnull]

theorem exists_resolve_iff : (∃ value, resolve args i = .ok value) ↔ Given args i :=
  exists_congr fun _ ↦ resolve_eq_ok_iff

theorem resolve_eq_error_iff : resolve args i = .error failure ↔ Absent args i failure := by
  constructor
  · intro h
    unfold resolve at h
    split at h
    · next hnone =>
      cases h
      exact .missing (List.getElem?_eq_none_iff.1 hnone)
    · next value hvalue =>
      split at h
      · next hnull =>
        cases h
        obtain rfl : value = .null := by cases value <;> first | rfl | cases hnull
        exact .null hvalue
      · cases h
  · intro h
    cases h with
    | missing hlen => simp [resolve, hlen]
    | null hnull => simp [resolve, hnull, Value.isNull]

namespace Piece

variable {piece : Piece} {pieces : List Piece}

/-- The argument of a placeholder takes its place; the other characters stay. -/
def shown (args : List Value) : Piece → List Char
  | literal c => [c]
  | slot digits =>
    match args[index digits]? with
    | some value => value.display.toList
    | none => []

theorem fill_eq_error_iff : piece.fill args = .error failure ↔
    ∃ i, piece.index? = some i ∧ resolve args i = .error failure := by
  cases piece with
  | literal c => simp [fill, index?]
  | slot digits => simp [fill, index?, map_eq_error_iff]

theorem given_of_fill {text : List Char} (h : piece.fill args = .ok text)
    (hindex : piece.index? = some i) : Given args i := by
  cases hresolve : resolve args i with
  | ok value => exact exists_resolve_iff.1 ⟨value, hresolve⟩
  | error failure => cases (fill_eq_error_iff.2 ⟨i, hindex, hresolve⟩).symm.trans h

theorem given_of_mapM_fill {texts : List (List Char)} (h : pieces.mapM (fill args) = .ok texts)
    (hi : i ∈ pieces.filterMap index?) : Given args i := by
  obtain ⟨piece, hmem, hindex⟩ := List.mem_filterMap.1 hi
  obtain ⟨text, hfill⟩ := exists_of_mapM_eq_ok h hmem
  exact given_of_fill hfill hindex

theorem mapM_fill_of_given (h : ∀ i ∈ pieces.filterMap index?, Given args i) :
    pieces.mapM (fill args) = .ok (pieces.map (shown args)) := by
  refine mapM_eq_ok_map fun piece hpiece ↦ ?_
  cases piece with
  | literal c => rfl
  | slot digits =>
    obtain ⟨value, hvalue, hnull⟩ := h (index digits) (List.mem_filterMap.2 ⟨_, hpiece, rfl⟩)
    rw [fill, shown, resolve_eq_ok_iff.2 ⟨hvalue, hnull⟩, hvalue]
    rfl

/-- The filling fails at the leftmost placeholder whose argument is not given. -/
theorem mapM_fill_eq_error_iff : pieces.mapM (fill args) = .error failure ↔
    ∃ before i after, pieces.filterMap index? = before ++ i :: after ∧
      (∀ j ∈ before, Given args j) ∧ Absent args i failure := by
  constructor
  · intro h
    obtain ⟨before, piece, after, rfl, hbefore, hpiece⟩ := exists_append_of_mapM_eq_error h
    obtain ⟨i, hindex, hresolve⟩ := fill_eq_error_iff.1 hpiece
    refine ⟨before.filterMap index?, i, after.filterMap index?, ?_, fun j hj ↦ ?_,
      resolve_eq_error_iff.1 hresolve⟩
    · rw [List.filterMap_append, List.filterMap_cons_some hindex]
    · obtain ⟨filled, hfilled, hindex⟩ := List.mem_filterMap.1 hj
      obtain ⟨text, htext⟩ := hbefore filled hfilled
      exact given_of_fill htext hindex
  · intro h
    obtain ⟨before, i, after, heq, hbefore, habsent⟩ := h
    obtain ⟨front, back, rfl, rfl, hback⟩ := List.filterMap_eq_append_iff.1 heq
    obtain ⟨literals, piece, rest, rfl, hliterals, hindex, -⟩ := List.filterMap_eq_cons_iff.1 hback
    have hfilled : (front ++ literals).filterMap index? = front.filterMap index? := by
      rw [List.filterMap_append, List.filterMap_eq_nil_iff.2 hliterals, List.append_nil]
    rw [← hfilled] at hbefore
    rw [← List.append_assoc]
    exact mapM_append_eq_error (mapM_fill_of_given hbefore)
      (fill_eq_error_iff.2 ⟨i, hindex, resolve_eq_error_iff.2 habsent⟩)

end Piece

variable {text output : String}

theorem substitute_eq_ok_iff : substitute text args = .ok output ↔
    (∀ i ∈ placeholders text, Given args i) ∧
      output = String.ofList ((Piece.ofChars text.toList).flatMap (Piece.shown args)) := by
  have hfilled (h : ∀ i ∈ placeholders text, Given args i) : substitute text args =
      .ok (String.ofList ((Piece.ofChars text.toList).flatMap (Piece.shown args))) := by
    rw [substitute, Piece.mapM_fill_of_given h, List.flatMap_def]
    rfl
  constructor
  · intro h
    obtain ⟨texts, hfill, -⟩ := bind_eq_ok_iff.1 h
    have hgiven (i : Nat) (hi : i ∈ placeholders text) := Piece.given_of_mapM_fill hfill hi
    exact ⟨hgiven, Except.ok.inj (h.symm.trans (hfilled hgiven))⟩
  · intro h
    obtain ⟨hgiven, rfl⟩ := h
    exact hfilled hgiven

theorem substitute_eq_error_iff : substitute text args = .error failure ↔
    ∃ before i after, placeholders text = before ++ i :: after ∧
      (∀ j ∈ before, Given args j) ∧ Absent args i failure := by
  rw [placeholders, ← Piece.mapM_fill_eq_error_iff, substitute, bind_eq_error_iff]
  constructor
  · intro h
    rcases h with h | ⟨texts, -, h⟩
    · exact h
    · cases h
  · exact .inl

/-- A text without an opening brace stays as it is, whatever the arguments. -/
theorem substitute_of_not_mem (h : '{' ∉ text.toList) : substitute text args = .ok text := by
  have hpieces := Piece.ofChars_of_not_mem h
  refine substitute_eq_ok_iff.2 ⟨fun i hi ↦ ?_, ?_⟩
  · rw [placeholders, hpieces] at hi
    simp [Piece.index?] at hi
  · rw [hpieces, List.flatMap_map]
    simp [Piece.shown]

theorem exists_of_substitute_eq_error (h : substitute text args = .error failure) :
    ∃ i ∈ placeholders text, resolve args i = .error failure := by
  obtain ⟨before, i, after, heq, -, habsent⟩ := substitute_eq_error_iff.1 h
  exact ⟨i, by simp [heq], resolve_eq_error_iff.2 habsent⟩

theorem resolve_of_substitute_eq_ok (h : substitute text args = .ok output)
    (hi : i ∈ placeholders text) : ∃ value, resolve args i = .ok value :=
  exists_resolve_iff.2 ((substitute_eq_ok_iff.1 h).1 i hi)

end Phrasing
