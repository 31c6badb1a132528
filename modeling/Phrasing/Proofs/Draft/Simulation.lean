import Phrasing.Condition.Draft
import Phrasing.Proofs.FiniteNumbers
import Phrasing.Proofs.Grammar.Acceptance

/-!
A condition that is read into slots is the same as one that is read in stages.

`Filled stage state slots` says which slots are filled at a stage, and with what. Each character
takes both readers to a stage and to its slots, or is refused by both with the same failure.
-/

namespace Phrasing.Draft

open Grammar

/-- The slots that a target and a negation fill. -/
def Slots.ofHead (head : Head) : Slots :=
  { Slots.empty with target := some head.target, negate := head.negate }

/-- A text of digits. -/
def IsDigits (s : String) : Prop := ∀ c ∈ s.toList, c.isDigit

/-- A text that can be a part of an operand. -/
def IsPlain (s : String) : Prop := ∀ c ∈ s.toList, Text.isBlank c = false ∧ c ≠ ':'

/-- The slots at a stage. What an operand was read from stays in its slots until the branch ends. -/
inductive Filled : Stage → State → Slots → Prop
  | target : Filled .target .target .empty
  | pointer {digits : String} (hdigits : IsDigits digits) :
      Filled (.pointer digits) .target { Slots.empty with digits := some digits }
  | mark : Filled .mark .separator { Slots.empty with isFallback := true }
  | operator {head : Head} {token : String} (htoken : token ≠ Operator.range.token) :
      Filled (.operator head token) .comparison { Slots.ofHead head with token := token }
  | rangeLow {head : Head} {token low : String} (hlow : IsDigits low) :
      Filled (.rangeLow head low) .comparison { Slots.ofHead head with
        token := token, operator := some .range, span := some ⟨.low, low, ""⟩ }
  | rangeDot {head : Head} {token low : String} (hlow : IsDigits low) (hne : low ≠ "") :
      Filled (.rangeDot head low) .comparison { Slots.ofHead head with
        token := token, operator := some .range, span := some ⟨.point, low, ""⟩ }
  | rangeHigh {head : Head} {token low high : String} (hlow : IsDigits low) (hne : low ≠ "")
      (hhigh : IsDigits high) :
      Filled (.rangeHigh head low high) .comparison { Slots.ofHead head with
        token := token, operator := some .range, span := some ⟨.high, low, high⟩ }
  | operand {head : Head} {o : Operator} {token text : String} {start : Nat} (ho : o ≠ .range)
      (hne : text ≠ "") (htext : IsPlain text) :
      Filled (.operand head o start text) .comparison { Slots.ofHead head with
        token := token, operator := some o, operandText := text, operandStart := start }
  | result {comparison : Comparison} {token operandText text : String} {operandStart : Nat}
      (hmatched : comparison.isMatched = true)
      (hoperand : operandText ≠ "" → comparison.operator ≠ .range) (hplain : IsPlain operandText)
      (htext : '|' ∉ text.toList) :
      Filled (.result comparison text) .result {
        target := some comparison.target, digits := none, negate := comparison.negate,
        token := token, operator := some comparison.operator, span := none,
        operandText := operandText, operandStart := operandStart,
        operand := some comparison.operand, isFallback := false, result := text }
  | fallback {text : String} :
      Filled (.fallback text) .result { Slots.empty with isFallback := true, result := text }

/-- Two outcomes are related results, or the same failure. -/
inductive Alike {ε α β : Type} (R : α → β → Prop) : Except ε α → Except ε β → Prop
  | ok {a : α} {b : β} (h : R a b) : Alike R (.ok a) (.ok b)
  | error (e : ε) : Alike R (.error e) (.error e)

namespace Alike

variable {ε α β γ δ : Type} {R : α → β → Prop} {x : Except ε α} {y : Except ε β}

theorem map {S : γ → β → Prop} {f : α → γ} (h : Alike R x y) (hf : ∀ a b, R a b → S (f a) b) :
    Alike S (x.map f) y := by
  cases h with
  | ok h => exact .ok (hf _ _ h)
  | error e => exact .error e

theorem bind {S : γ → δ → Prop} {f : α → Except ε γ} {g : β → Except ε δ} (h : Alike R x y)
    (hf : ∀ a b, R a b → Alike S (f a) (g b)) : Alike S (x >>= f) (y >>= g) := by
  cases h with
  | ok h => exact hf _ _ h
  | error e => exact .error e

theorem exists_of_ok {b : β} (h : Alike R x y) (hy : y = .ok b) : ∃ a, x = .ok a ∧ R a b := by
  cases h with
  | ok h =>
    cases hy
    exact ⟨_, rfl, h⟩
  | error e => cases hy

end Alike

def Fills (condition : Condition) (stage : Stage) (d : Draft) : Prop :=
  d.condition = condition ∧ Filled stage d.state d.slots

variable {condition : Condition} {head : Head} {o : Operator} {digits token low high text : String}
  {c : Char} {stage : Stage} {state : State} {slots : Slots}

theorem forall_mem_push {P : Char → Prop} :
    (∀ d ∈ (text.push c).toList, P d) ↔ (∀ d ∈ text.toList, P d) ∧ P c := by
  rw [String.toList_push, List.forall_mem_append, List.forall_mem_singleton]

theorem IsDigits.push (h : IsDigits text) (hc : c.isDigit) : IsDigits (text.push c) :=
  forall_mem_push.2 ⟨h, hc⟩

theorem IsPlain.push (h : IsPlain text) (hblank : Text.isBlank c = false) (hc : c ≠ ':') :
    IsPlain (text.push c) := forall_mem_push.2 ⟨h, hblank, hc⟩

theorem isDigits_empty : IsDigits "" := by simp [IsDigits]

theorem isPlain_empty : IsPlain "" := by simp [IsPlain]

/-- Bounds of digits are read as the doubles next to them. -/
theorem read?_digits (h : IsDigits text) (hne : text ≠ "") :
    Binary64.read? text.toList = some (Stage.bound text) := by
  have hwhole : Whole text.toList (Nat.ofDigitChars 10 text.toList 0) :=
    ⟨⟨fun hnil ↦ hne (String.toList_eq_nil_iff.1 hnil), h⟩, rfl⟩
  exact hwhole.real.read?

/-! ## One character -/

theorem alike_target (offset : Nat) (c : Char) :
    Alike (Fills condition) (Stage.target.next offset c)
      (feedTarget ⟨condition, .target, .empty⟩ offset c) := by
  simp only [Stage.next, feedTarget, Slots.empty, Option.isSome_none, Bool.false_eq_true, if_false]
  split
  · exact .ok ⟨rfl, .pointer isDigits_empty⟩
  · split
    · exact .ok ⟨rfl, .mark⟩
    · exact .error _

theorem alike_pointer (hdigits : IsDigits digits) (offset : Nat) (c : Char) :
    Alike (Fills condition) (Stage.nextPointer digits offset c)
      (feedTarget ⟨condition, .target, { Slots.empty with digits := some digits }⟩ offset c) := by
  simp only [Stage.nextPointer, feedTarget, feedPointer, Option.isSome_some, if_true,
    Option.getD_some]
  split
  · next hc => exact .ok ⟨rfl, .pointer (hdigits.push hc)⟩
  · split
    · exact .error _
    · next hclose =>
      obtain rfl : c = '}' := Decidable.not_not.1 hclose
      split
      · exact .error _
      · cases Numeral.index? digits.toList with
        | some index => exact .ok ⟨rfl, .operator (by decide)⟩
        | none =>
          have htext : "\x7b" ++ digits.push '}' = "\x7b" ++ digits ++ "\x7d" := by
            rw [← String.toList_inj]
            simp
          rw [htext]
          exact .error _

theorem alike_separator (offset : Nat) (c : Char) :
    Alike (Fills condition) (Stage.mark.next offset c)
      (feedSeparator ⟨condition, .separator, { Slots.empty with isFallback := true }⟩
        offset c) := by
  simp only [Stage.next, feedSeparator]
  split
  · exact .ok ⟨rfl, .fallback⟩
  · exact .error _

theorem alike_operator (htoken : token ≠ Operator.range.token) (hc : Text.isBlank c = false)
    (offset : Nat) :
    Alike (Fills condition) (Stage.nextOperator head token offset c)
      (feedComparison ⟨condition, .comparison, { Slots.ofHead head with token := token }⟩
        offset c) := by
  simp only [Stage.nextOperator, feedComparison, feedOperator, Slots.ofHead, Slots.empty,
    Option.isSome_none, Option.isNone_none, Bool.false_eq_true, if_false, if_true]
  split
  · obtain ⟨target, negate⟩ := head
    cases negate with
    | true => exact .error _
    | false => exact .ok ⟨rfl, .operator htoken⟩
  · split
    · cases hnext : Operator.ofToken? (token.push c) with
      | none => exact .error _
      | some o =>
        dsimp only
        split
        · next hrange =>
          obtain rfl : o = .range := beq_iff_eq.1 hrange
          exact .ok ⟨rfl, .rangeLow isDigits_empty⟩
        · next hrange =>
          refine .ok ⟨rfl, .operator fun heq ↦ ?_⟩
          rw [heq, Operator.ofToken?_token] at hnext
          obtain rfl := Option.some.inj hnext
          exact hrange rfl
    · cases ho : Operator.ofToken? token with
      | none => exact .error _
      | some o =>
        have hrange : o ≠ .range := by
          rintro rfl
          exact htoken (ofToken?_eq_some_iff.1 ho).symm
        simp only [Stage.startOperand, feedOperand, ne_eq, ite_not]
        split
        · exact .error _
        · next hcolon =>
          exact .ok ⟨rfl, .operand hrange (by simp) (isPlain_empty.push hc hcolon)⟩

theorem alike_rangeLow (hlow : IsDigits low) (offset : Nat) (c : Char) :
    Alike (Fills condition) (Stage.nextRangeLow head low offset c)
      (feedComparison ⟨condition, .comparison, { Slots.ofHead head with
        token := token, operator := some .range, span := some ⟨.low, low, ""⟩ }⟩ offset c) := by
  simp only [Stage.nextRangeLow, feedComparison, feedSpan, Option.isSome_some, if_true]
  split
  · next hc => exact .ok ⟨rfl, .rangeLow (hlow.push hc)⟩
  · split
    · exact .error _
    · split
      · exact .error _
      · next hempty =>
        split
        · exact .ok ⟨rfl, .rangeDot hlow fun heq ↦ hempty (String.isEmpty_iff.2 heq)⟩
        · exact .error _

theorem alike_rangeDot (hlow : IsDigits low) (hne : low ≠ "") (offset : Nat) (c : Char) :
    Alike (Fills condition) (Stage.nextRangeDot head low offset c)
      (feedComparison ⟨condition, .comparison, { Slots.ofHead head with
        token := token, operator := some .range, span := some ⟨.point, low, ""⟩ }⟩ offset c) := by
  simp only [Stage.nextRangeDot, feedComparison, feedSpan, Option.isSome_some, if_true]
  split
  · exact .ok ⟨rfl, .rangeHigh hlow hne isDigits_empty⟩
  · exact .error _

theorem alike_rangeHigh (hlow : IsDigits low) (hne : low ≠ "") (hhigh : IsDigits high)
    (offset : Nat) (c : Char) :
    Alike (Fills condition) (Stage.nextRangeHigh head low high offset c)
      (feedComparison ⟨condition, .comparison, { Slots.ofHead head with
        token := token, operator := some .range, span := some ⟨.high, low, high⟩ }⟩ offset c) := by
  simp only [Stage.nextRangeHigh, feedComparison, feedSpan, Option.isSome_some, if_true]
  split
  · next hc => exact .ok ⟨rfl, .rangeHigh hlow hne (hhigh.push hc)⟩
  · split
    · exact .error _
    · split
      · exact .error _
      · split
        · exact .error _
        · next hempty =>
          have hhigh := read?_digits hhigh fun heq ↦ hempty (String.isEmpty_iff.2 heq)
          simp only [Span.read, read?_digits hlow hne, hhigh]
          exact .ok ⟨rfl, .result rfl (fun h ↦ absurd rfl h) isPlain_empty (by simp)⟩

theorem alike_operand {start : Nat} (ho : o ≠ .range) (hne : text ≠ "") (htext : IsPlain text)
    (hc : Text.isBlank c = false) (offset : Nat) :
    Alike (Fills condition) (Stage.nextOperand head o start text c)
      (feedComparison ⟨condition, .comparison, { Slots.ofHead head with
        token := token, operator := some o, operandText := text, operandStart := start }⟩
          offset c) := by
  have hempty : ¬text.isEmpty = true := fun h ↦ hne (String.isEmpty_iff.1 h)
  simp only [Stage.nextOperand, feedComparison, feedOperand, Slots.ofHead, Slots.empty,
    Option.isSome_none, Option.isNone_some, Bool.false_eq_true, if_false, hempty]
  split
  · next hcolon => exact .ok ⟨rfl, .operand ho (by simp) (htext.push hc hcolon)⟩
  · cases hread : Operand.read start text.toList with
    | error failure => exact .error _
    | ok x =>
      have hmatched := (operandRead_iff.1 hread).isMatched ho head.target head.negate
      exact .ok ⟨rfl, .result hmatched (fun _ ↦ ho) htext (by simp)⟩

theorem Filled.ready (h : Filled stage state slots) (hstate : state ≠ .result) : Ready stage := by
  cases h with
  | operator htoken => exact htoken
  | operand ho => exact ho
  | result | fallback => exact absurd rfl hstate
  | _ => trivial

/-- Before a result, each character is taken or refused by both readers. -/
theorem alike_next (h : Filled stage state slots) (hstate : state ≠ .result)
    (hc : Text.isBlank c = false) (offset : Nat) :
    Alike (Fills condition) (stage.next offset c) (next ⟨condition, state, slots⟩ offset c) := by
  cases h with
  | target => exact alike_target offset c
  | pointer hdigits => exact alike_pointer hdigits offset c
  | mark => exact alike_separator offset c
  | operator htoken => exact alike_operator htoken hc offset
  | rangeLow hlow => exact alike_rangeLow hlow offset c
  | rangeDot hlow hne => exact alike_rangeDot hlow hne offset c
  | rangeHigh hlow hne hhigh => exact alike_rangeHigh hlow hne hhigh offset c
  | operand ho hne htext => exact alike_operand ho hne htext hc offset
  | result | fallback => exact absurd rfl hstate

/-! ## A whole condition -/

/-- A branch that is read to its end. -/
structure Complete (b : Branch) : Prop where
  isMatched : b.isMatched = true
  trimmed : Text.Trimmed b.result.toList
  ne_empty : b.result ≠ ""
  separator : '|' ∉ b.result.toList

/-- The draft holds what has been read in stages. -/
structure Represents (lead : String) (p : Pending) (d : Draft) : Prop where
  condition : d.condition = ⟨lead, p.branches, none⟩
  filled : Filled p.stage d.state d.slots
  complete : ∀ b ∈ p.branches, Complete b

variable {lead : String} {p : Pending} {d : Draft} {comparison : Comparison}

theorem trimmed_isEmpty (text : String) :
    (Text.trimmed text).isEmpty = Text.isBlankText text := by
  rw [Bool.eq_iff_iff, String.isEmpty_iff, Text.trimmed, Text.isBlankText, ← Text.trim_eq_nil_iff,
    ← String.toList_inj, String.toList_ofList, String.toList_empty]

theorem complete_trimmed (hmatched : comparison.isMatched = true) (htext : '|' ∉ text.toList)
    (hne : ¬Text.isBlankText text = true) : Complete ⟨comparison, Text.trimmed text⟩ where
  isMatched := hmatched
  trimmed := by
    rw [Text.trimmed, String.toList_ofList]
    exact Text.trimmed_trim _
  ne_empty heq := by
    rw [← trimmed_isEmpty, String.isEmpty_iff] at hne
    exact hne heq
  separator := by
    rw [Text.trimmed, String.toList_ofList]
    exact fun h ↦ htext (Text.mem_of_mem_trim h)

theorem represents_start (lead : String) : Represents lead .start (start lead) :=
  ⟨rfl, .target, by simp [Pending.start]⟩

theorem alike_result {branches : List Branch} (hbranches : ∀ b ∈ branches, Complete b)
    (h : Filled (.result comparison text) .result slots) (offset : Nat) (c : Char) :
    Alike (Represents lead) (Pending.feed ⟨branches, .result comparison text⟩ offset c)
      (feedResult ⟨⟨lead, branches, none⟩, .result, slots⟩ offset c) := by
  cases h with
  | result hmatched hoperand hplain htext =>
    by_cases hbar : c = '|'
    · subst hbar
      simp only [Pending.feed, feedResult, ne_eq, not_true_eq_false, Bool.false_eq_true, if_false,
        trimmed_isEmpty]
      split
      · exact .error _
      · next hne =>
        refine .ok ⟨rfl, .target, ?_⟩
        exact List.forall_mem_append.2
          ⟨hbranches, List.forall_mem_singleton.2 (complete_trimmed hmatched htext hne)⟩
    · have hpush : '|' ∉ (text.push c).toList := by
        simpa [htext, eq_comm] using hbar
      rw [feed_result hbar, feedResult, if_pos hbar]
      exact .ok ⟨rfl, .result hmatched hoperand hplain hpush, hbranches⟩

theorem alike_fallback {branches : List Branch} (hbranches : ∀ b ∈ branches, Complete b)
    (offset : Nat) (c : Char) :
    Alike (Represents lead) (Pending.feed ⟨branches, .fallback text⟩ offset c)
      (feedResult ⟨⟨lead, branches, none⟩, .result,
        { Slots.empty with isFallback := true, result := text }⟩ offset c) := by
  by_cases hbar : c = '|'
  · subst hbar
    exact .error _
  · rw [feed_fallback hbar, feedResult, if_pos hbar]
    exact .ok ⟨rfl, .fallback, hbranches⟩

/-- Both readers take a character, or both refuse it with the same failure. -/
theorem alike_feed (h : Represents lead p d) (offset : Nat) (c : Char) :
    Alike (Represents lead) (p.feed offset c) (d.feed offset c) := by
  obtain ⟨branches, stage⟩ := p
  obtain ⟨condition, state, slots⟩ := d
  obtain ⟨rfl, hfilled, hbranches⟩ := h
  by_cases hstate : state = .result
  · subst hstate
    rw [feed, if_neg (fun h ↦ h.2 rfl)]
    cases hfilled with
    | result hmatched hoperand hplain htext =>
      exact alike_result hbranches (.result hmatched hoperand hplain htext) offset c
    | fallback => exact alike_fallback hbranches offset c
  · rw [feed_of_ready (hfilled.ready hstate), feed]
    by_cases hblank : Text.isBlank c = true
    · rw [if_pos hblank, if_pos ⟨hblank, hstate⟩]
      exact .ok ⟨rfl, hfilled, hbranches⟩
    · rw [if_neg hblank, if_neg fun h ↦ hblank h.1]
      refine (alike_next hfilled hstate (Bool.eq_false_iff.2 hblank) offset).map ?_
      intro stage d hfills
      exact ⟨hfills.1, hfills.2, hbranches⟩

theorem alike_feedAll (h : Represents lead p d) (offset : Nat) (s : List Char) :
    Alike (Represents lead) (p.feedAll offset s) (d.feedAll offset s) := by
  induction s generalizing p d offset with
  | nil => exact .ok h
  | cons c s ih =>
    exact (alike_feed h offset c).bind fun p d h ↦ ih h (offset + 1)

theorem close_eq (h : Represents lead p d) (offset : Nat) :
    d.close offset =
      (p.close offset).map fun (branches, fallback) ↦ ⟨lead, branches, some fallback⟩ := by
  obtain ⟨branches, stage⟩ := p
  obtain ⟨condition, state, slots⟩ := d
  obtain ⟨rfl, hfilled, -⟩ := h
  cases hfilled with
  | fallback =>
    simp only [close, Pending.close, trimmed_isEmpty, if_true]
    split <;> rfl
  | _ => rfl

/-- A condition is read into slots just as it is read in stages. -/
theorem read_eq (lead : String) (offset : Nat) (body : List Char) :
    Draft.read lead offset body = Condition.read lead offset body := by
  have h := alike_feedAll (represents_start lead) offset body
  rw [Draft.read, Condition.read]
  generalize Pending.start.feedAll offset body = x at h ⊢
  generalize (start lead).feedAll offset body = y at h ⊢
  cases h with
  | error e => rfl
  | @ok p d h =>
    change d.close _ = p.close _ >>= fun (branches, fallback) ↦ pure ⟨lead, branches, some fallback⟩
    rw [close_eq h]
    cases p.close (offset + body.length) <;> rfl

end Phrasing.Draft
