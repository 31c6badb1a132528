import Phrasing.Proofs.Grammar.Acceptance

/-!
The same text read further on in a source: the offsets of failures move with it, and nothing else
changes. Neither does the text before a condition decide whether the condition is read.
-/

namespace Phrasing

open Outcome

/-- The failure of a text that stands `n` characters further on. -/
def Failure.shift (n : Nat) : Failure → Failure
  | malformed offset defect => malformed (offset + n) defect
  | failure => failure

/-- Two outcomes of reading a text, the second one `n` characters further on. A failure has an
offset, and only that differs. -/
inductive Moved {α β : Type} (n : Nat) (f : α → β) : Except Failure α → Except Failure β → Prop
  | ok (a : α) : Moved n f (.ok a) (.ok (f a))
  | malformed (offset : Nat) (defect : Defect) :
      Moved n f (.error (.malformed offset defect)) (.error (.malformed (offset + n) defect))

namespace Moved

variable {α β γ δ : Type} {n : Nat} {f : α → β} {g : γ → δ} {x : Except Failure α}
  {y : Except Failure β}

theorem bind {k : α → Except Failure γ} {k' : β → Except Failure δ} (h : Moved n f x y)
    (hk : ∀ a, Moved n g (k a) (k' (f a))) : Moved n g (x >>= k) (y >>= k') := by
  cases h with
  | ok a => exact hk a
  | malformed offset defect => exact .malformed offset defect

theorem map {k : α → γ} {k' : β → δ} (h : Moved n f x y) (hk : ∀ a, k' (f a) = g (k a)) :
    Moved n g (x.map k) (y.map k') := by
  cases h with
  | ok a =>
    change Moved n g (.ok (k a)) (.ok (k' (f a)))
    rw [hk]
    exact .ok (k a)
  | malformed offset defect => exact .malformed offset defect

theorem eq_mapError {z : Except Failure α} (h : Moved n id x z) :
    z = x.mapError (Failure.shift n) := by
  cases h <;> rfl

theorem malformed_of_error {failure : Failure} (h : Moved n f x y) (hx : x = .error failure) :
    ∃ offset defect, failure = .malformed offset defect := by
  cases h with
  | ok a => cases hx
  | malformed offset defect =>
    cases hx
    exact ⟨offset, defect, rfl⟩

end Moved

namespace Stage

def shift (n : Nat) : Stage → Stage
  | operand head o start text => operand head o (start + n) text
  | stage => stage

variable {n offset start : Nat} {c : Char} {head : Head} {o : Operator}
  {digits token low high text : String}

theorem moved_nextPointer :
    Moved n (shift n) (nextPointer digits offset c) (nextPointer digits (offset + n) c) := by
  unfold nextPointer
  split
  · exact .ok _
  · split
    · exact .malformed ..
    · split
      · exact .malformed ..
      · split
        · exact .ok _
        · exact .malformed ..

theorem moved_startOperand :
    Moved n (shift n) (startOperand head o offset c) (startOperand head o (offset + n) c) := by
  unfold startOperand
  split
  · exact .malformed ..
  · exact .ok (operand head o offset (String.singleton c))

theorem moved_nextOperator :
    Moved n (shift n) (nextOperator head token offset c) (nextOperator head token (offset + n) c) := by
  unfold nextOperator
  split
  · split
    · exact .malformed ..
    · exact .ok (operator _ _)
  · split
    · split
      · exact .malformed ..
      · next o _ =>
        cases o.isRange with
        | true => exact .ok (rangeLow head "")
        | false => exact .ok (operator head (token.push c))
    · split
      · exact .malformed ..
      · exact moved_startOperand

theorem moved_nextRangeLow :
    Moved n (shift n) (nextRangeLow head low offset c) (nextRangeLow head low (offset + n) c) := by
  unfold nextRangeLow badRange
  split
  · exact .ok (rangeLow head (low.push c))
  · split
    · exact .malformed ..
    · split
      · exact .malformed ..
      · split
        · exact .ok (rangeDot head low)
        · exact .malformed ..

theorem moved_nextRangeDot :
    Moved n (shift n) (nextRangeDot head low offset c) (nextRangeDot head low (offset + n) c) := by
  unfold nextRangeDot badRange
  split
  · exact .ok (rangeHigh head low "")
  · exact .malformed ..

theorem moved_nextRangeHigh : Moved n (shift n) (nextRangeHigh head low high offset c)
    (nextRangeHigh head low high (offset + n) c) := by
  unfold nextRangeHigh badRange
  split
  · exact .ok (rangeHigh head low (high.push c))
  · split
    · exact .malformed ..
    · split
      · exact .malformed ..
      · split
        · exact .malformed ..
        · exact .ok (result _ "")

theorem moved_readOperand {s : List Char} :
    Moved n id (Operand.read start s) (Operand.read (start + n) s) := by
  unfold Operand.read
  split
  · split
    · exact .ok _
    · exact .malformed ..
  · exact .ok _

theorem moved_nextOperand :
    Moved n (shift n) (nextOperand head o start text c) (nextOperand head o (start + n) text c) := by
  unfold nextOperand
  split
  · exact .ok (operand head o start (text.push c))
  · exact moved_readOperand.map fun _ ↦ rfl

theorem moved_next (stage : Stage) :
    Moved n (shift n) (stage.next offset c) ((stage.shift n).next (offset + n) c) := by
  cases stage with
  | target =>
    change Moved n (shift n) (if c = '{' then _ else _) (if c = '{' then _ else _)
    split
    · exact .ok (pointer "")
    · split
      · exact .ok mark
      · exact .malformed ..
  | pointer digits => exact moved_nextPointer
  | mark =>
    change Moved n (shift n) (if c = ':' then _ else _) (if c = ':' then _ else _)
    split
    · exact .ok (fallback "")
    · exact .malformed ..
  | operator head token => exact moved_nextOperator
  | rangeLow head low => exact moved_nextRangeLow
  | rangeDot head low => exact moved_nextRangeDot
  | rangeHigh head low high => exact moved_nextRangeHigh
  | operand head o start text => exact moved_nextOperand
  | result comparison text => exact .ok (result comparison (text.push c))
  | fallback text => exact .ok (fallback (text.push c))

end Stage

namespace Pending

def shift (n : Nat) (p : Pending) : Pending := { p with stage := p.stage.shift n }

variable {n offset : Nat} {c : Char} {p : Pending} {s : List Char}

theorem feed_of_not_separator (h : c = '|' → p.stage.isVerbatim = false) :
    p.feed offset c = if Text.isBlank c && !p.stage.isVerbatim then .ok p
      else (p.stage.next offset c).map ({ p with stage := · }) := by
  unfold feed
  split
  · next hstage =>
    rw [hstage] at h
    cases h rfl
  · next hstage =>
    rw [hstage] at h
    cases h rfl
  · rfl

theorem isVerbatim_shift (stage : Stage) : (stage.shift n).isVerbatim = stage.isVerbatim := by
  cases stage <;> rfl

theorem moved_feed : Moved n (shift n) (p.feed offset c) ((p.shift n).feed (offset + n) c) := by
  by_cases h : c = '|' → p.stage.isVerbatim = false
  · have h' : c = '|' → (p.shift n).stage.isVerbatim = false := fun hc ↦
      (isVerbatim_shift p.stage).trans (h hc)
    have hverbatim : (p.shift n).stage.isVerbatim = p.stage.isVerbatim := isVerbatim_shift p.stage
    rw [feed_of_not_separator h, feed_of_not_separator h', hverbatim]
    split
    · exact .ok p
    · exact (Stage.moved_next p.stage).map fun _ ↦ rfl
  · obtain ⟨rfl, hverbatim⟩ := Classical.not_imp.1 h
    obtain ⟨branches, stage⟩ := p
    cases stage with
    | result comparison text =>
      change Moved n (shift n) (if Text.isBlankText text then _ else _)
        (if Text.isBlankText text then _ else _)
      split
      · exact .malformed ..
      · exact .ok (⟨_, .target⟩ : Pending)
    | fallback text => exact .malformed ..
    | _ => exact absurd rfl hverbatim

theorem moved_feedAll :
    Moved n (shift n) (p.feedAll offset s) ((p.shift n).feedAll (offset + n) s) := by
  induction s generalizing p offset with
  | nil => exact .ok p
  | cons c s ih =>
    refine moved_feed.bind fun q ↦ ?_
    rw [Nat.add_right_comm]
    exact ih

theorem moved_close : Moved n id (p.close offset) ((p.shift n).close (offset + n)) := by
  obtain ⟨branches, stage⟩ := p
  cases stage with
  | fallback text =>
    change Moved n id (if Text.isBlankText text then _ else _)
      (if Text.isBlankText text then _ else _)
    split
    · exact .malformed ..
    · exact .ok _
  | _ => exact .malformed ..

end Pending

variable {n offset : Nat} {lead : String} {body : List Char}

theorem Condition.moved_read :
    Moved n id (read lead offset body) (read lead (offset + n) body) := by
  refine (Pending.moved_feedAll (p := .start)).bind fun q ↦ ?_
  rw [Nat.add_right_comm]
  exact Pending.moved_close.bind fun r ↦ .ok _

theorem Condition.read_append (text : String) : read (text ++ lead) offset body =
    (read lead offset body).map fun c ↦ { c with lead := text ++ c.lead } := by
  unfold read
  cases Pending.start.feedAll offset body with
  | error => rfl
  | ok p =>
    change (p.close (offset + body.length) >>= _) = Except.map _ (p.close (offset + body.length) >>= _)
    cases p.close (offset + body.length) <;> rfl

/-- A condition that is not read is refused with an offset. -/
theorem Condition.malformed_of_read {failure : Failure}
    (h : read lead offset body = .error failure) :
    ∃ offset' defect, failure = .malformed offset' defect :=
  (moved_read (n := 0)).malformed_of_error h

section

variable [Hasher]

/-- A condition with more text before it, and the stamp of that. -/
def Stamped.addLead (text : String) (s : Stamped) : Stamped :=
  Grammar.stamped { s.condition with lead := text ++ s.condition.lead }

namespace Template

theorem readQuoted_add (lead : String) (offset n : Nat) (body : List Char) :
    readQuoted lead (offset + n) body =
      (readQuoted lead offset body).mapError (Failure.shift n) := by
  unfold readQuoted
  split
  · rfl
  · rw [Nat.add_right_comm, Condition.moved_read.eq_mapError]
    cases Condition.read lead (offset + 1) body with
    | error => rfl
    | ok c =>
      change (Stamped.new c).validate = (Stamped.new c).validate.mapError (Failure.shift n)
      rw [Grammar.validate_new]
      split <;> rfl

theorem readQuoted_append (text lead : String) (offset : Nat) (body : List Char) :
    readQuoted (text ++ lead) offset body =
      (readQuoted lead offset body).map (Stamped.addLead text) := by
  unfold readQuoted
  split
  · rfl
  · rw [Condition.read_append]
    cases Condition.read lead (offset + 1) body with
    | error => rfl
    | ok c =>
      have hcheck : ({ c with lead := text ++ c.lead } : Condition).check = c.check := rfl
      change (Stamped.new { c with lead := text ++ c.lead }).validate =
        (Stamped.new c).validate.map (Stamped.addLead text)
      rw [Grammar.validate_new, Grammar.validate_new, hcheck]
      split <;> rfl

end Template

end

end Phrasing
