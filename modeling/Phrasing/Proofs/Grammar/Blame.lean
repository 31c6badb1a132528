import Phrasing.Proofs.Grammar.Body

/-!
The character at fault when the text of a condition is refused, and where in a branch it stands.
-/

namespace Phrasing.Grammar

open Outcome

/-- Whole branches, each with the separator after it. -/
inductive Branches : List Char → Prop
  | nil : Branches []
  | cons {head result rest : List Char} {c : Comparison} (hhead : ComparisonText (squeeze head) c)
      (hresult : ResultText result) (hrest : Branches rest) :
      Branches (head ++ ':' :: (result ++ '|' :: rest))

/-- A comparison without blanks, read up to the end of its operator or to somewhere inside it. -/
def UpToOperator (negate : Bool) (token s : List Char) : Prop :=
  ∃ digits, (∀ c ∈ digits, c.isDigit) ∧
    s = '{' :: (digits ++ '}' :: ((if negate then ['!'] else []) ++ token))

/-- A character after the part of a branch before it, and the defect that it makes. -/
inductive Misplaced (part : List Char) : Char → Defect → Prop
  | unexpected (c : Char) (wanted : Expectation) : Misplaced part c (.unexpected c wanted)
  | emptyPointer (hpart : squeeze part = ['{']) : Misplaced part '}' .emptyPointer
  | badTarget {digits : List Char} {c : Char} (hdigits : ∀ d ∈ digits, d.isDigit)
      (hpart : squeeze part = '{' :: digits) (hc : c.isDigit = false) :
      Misplaced part c (.badPointer (String.ofList ('{' :: digits ++ [c])))
  | badOperand {negate : Bool} {o : Operator} (text : List Char)
      (hpart : UpToOperator negate o.token.toList (squeeze part)) :
      Misplaced part '{' (.badPointer (String.ofList ('{' :: text)))
  | badOperator {c : Char} (hc : Operator.isMark c = true) (token : String) :
      Misplaced part c (.badOperator token)
  | noOperator {c : Char} (hc : Operator.isMark c = false) : Misplaced part c .noOperator
  | noOperand : Misplaced part ':' .noOperand
  | badRange (c : Char) (fault : RangeFault) : Misplaced part c (.badRange fault)
  | noResult : Misplaced part '|' .noResult
  | fallbackNotLast : Misplaced part '|' .fallbackNotLast

/-- What is wrong with a condition that ends too early. -/
inductive Unfinished : Defect → Prop
  | endsEarly (wanted : Expectation) : Unfinished (.endsEarly wanted)
  | noResult : Unfinished .noResult
  | noFallback : Unfinished .noFallback

/-- A branch that starts at `base` is refused at one of its characters. -/
def Refused (base : Nat) (branch : List Char) (failure : Failure) : Prop :=
  ∃ part c after defect, branch = part ++ c :: after ∧
    failure = .malformed (base + part.length) defect ∧ Misplaced part c defect

/-- A text that starts at `base` is refused at a character of a branch, or at its end. -/
def Rejected (base : Nat) (s : List Char) (failure : Failure) : Prop :=
  (∃ earlier branch, s = earlier ++ branch ∧ Branches earlier ∧
    Refused (base + earlier.length) branch failure) ∨
  ∃ defect, failure = .malformed (base + s.length) defect ∧ Unfinished defect

/-- What a stage tells of the part of a branch that was read when the branch starts at `base`. -/
def Reached (base : Nat) (part : List Char) : Stage → Prop
  | .target => squeeze part = []
  | .pointer digits => (∀ c ∈ digits.toList, c.isDigit) ∧ squeeze part = '{' :: digits.toList
  | .operator head token => UpToOperator head.negate token.toList (squeeze part)
  | .operand head o start text => ∃ before c more, part = before ++ c :: more ∧
      start = base + before.length ∧ text.toList = c :: squeeze more ∧
      UpToOperator head.negate o.token.toList (squeeze before)
  | _ => True

variable {base offset start : Nat} {part s head rest digits token result : List Char} {c : Char}
  {stage next : Stage} {failure : Failure} {defect : Defect} {negate : Bool} {p q : Pending}
  {branches : List Branch} {comparison : Comparison}

theorem squeeze_push_blank (h : Text.isBlank c = true) : squeeze (s ++ [c]) = squeeze s := by
  simp [squeeze, h]

theorem squeeze_push (h : Text.isBlank c = false) : squeeze (s ++ [c]) = squeeze s ++ [c] := by
  simp [squeeze, h]

theorem UpToOperator.negated (h : UpToOperator false [] s) : UpToOperator true [] (s ++ ['!']) := by
  obtain ⟨digits, hdigits, rfl⟩ := h
  exact ⟨digits, hdigits, by simp⟩

theorem UpToOperator.push (h : UpToOperator negate token s) (c : Char) :
    UpToOperator negate (token ++ [c]) (s ++ [c]) := by
  obtain ⟨digits, hdigits, rfl⟩ := h
  exact ⟨digits, hdigits, by simp⟩

theorem Misplaced.refused (h : Misplaced part c defect) (after : List Char) :
    Refused base (part ++ c :: after) (.malformed (base + part.length) defect) :=
  ⟨part, c, after, defect, rfl, rfl, h⟩

theorem Refused.append (h : Refused base s failure) (t : List Char) :
    Refused base (s ++ t) failure := by
  obtain ⟨part, c, after, defect, rfl, rfl, hc⟩ := h
  rw [List.append_assoc]
  exact hc.refused (after ++ t)

theorem Refused.rejected (h : Refused base s failure) : Rejected base s failure :=
  .inl ⟨[], s, rfl, .nil, h⟩

theorem Reached.blank (h : Reached base part stage) (hc : Text.isBlank c = true) :
    Reached base (part ++ [c]) stage := by
  cases stage with
  | operand head o start text =>
    obtain ⟨before, d, more, rfl, hstart, htext, hbefore⟩ := h
    exact ⟨before, d, more ++ [c], by simp, hstart, by rw [squeeze_push_blank hc, htext], hbefore⟩
  | target | pointer | operator => simpa only [Reached, squeeze_push_blank hc] using h
  | _ => trivial

/-! One step: a character that is taken, and one that is refused. -/

theorem Step.reached (hstep : Step (base + part.length) stage c next)
    (h : Reached base part stage) (hc : Text.isBlank c = false) :
    Reached base (part ++ [c]) next := by
  have hpush : squeeze (part ++ [c]) = squeeze part ++ [c] := squeeze_push hc
  cases hstep with
  | brace =>
    have hpart : squeeze part = [] := h
    exact ⟨by simp, by rw [hpush, hpart]; rfl⟩
  | @digit digits c hdigit =>
    obtain ⟨hdigits, hpart⟩ := h
    refine ⟨?_, by rw [hpush, hpart, String.toList_push, List.cons_append]⟩
    simpa using fun d hd ↦ hd.elim (hdigits d) fun heq ↦ heq ▸ hdigit
  | @target digits =>
    obtain ⟨hdigits, hpart⟩ := h
    exact ⟨digits.toList, hdigits, by rw [hpush, hpart]; rfl⟩
  | negate hnegate =>
    rw [Reached, hpush]
    refine UpToOperator.negated ?_
    simpa [Reached, hnegate] using h
  | mark =>
    rw [Reached, hpush, String.toList_push]
    exact UpToOperator.push h c
  | operand => exact ⟨part, c, [], rfl, rfl, by simp [squeeze], h⟩
  | text =>
    obtain ⟨before, d, more, rfl, hstart, htext, hbefore⟩ := h
    refine ⟨before, d, more ++ [c], by simp, hstart, ?_, hbefore⟩
    rw [squeeze_push hc, String.toList_push, htext, List.cons_append]
  | _ => trivial

theorem operandRead_eq_error {s : List Char} (h : Operand.read start s = .error failure) :
    ∃ text, s = '{' :: text ∧ failure = .malformed start (.badPointer (String.ofList s)) := by
  unfold Operand.read at h
  split at h
  · next hbrace =>
    obtain ⟨text, rfl⟩ := List.head?_eq_some_iff.1 hbrace
    split at h <;> cases h
    exact ⟨text, rfl, rfl⟩
  · cases h

theorem refused_nextPointer {digits : String} (h : Reached base part (.pointer digits))
    (hnext : Stage.nextPointer digits (base + part.length) c = .error failure) :
    Refused base (part ++ [c]) failure := by
  obtain ⟨hdigits, hpart⟩ := h
  have htext : "\x7b" ++ digits.push c = String.ofList ('{' :: digits.toList ++ [c]) := by
    rw [← String.toList_inj]
    simp
  unfold Stage.nextPointer at hnext
  rw [htext] at hnext
  split at hnext
  · cases hnext
  · next hdigit =>
    have hc : c.isDigit = false := by simpa using hdigit
    have htarget : Misplaced part c (.badPointer (String.ofList ('{' :: digits.toList ++ [c]))) :=
      .badTarget hdigits hpart hc
    split at hnext
    · cases hnext
      exact htarget.refused []
    · next hclose =>
      split at hnext
      · next hempty =>
        obtain rfl : c = '}' := Decidable.not_not.1 hclose
        cases hnext
        rw [String.isEmpty_iff.1 hempty] at hpart
        exact (Misplaced.emptyPointer hpart).refused []
      · split at hnext <;> cases hnext
        exact htarget.refused []

theorem refused_nextOperator {head : Head} {token : String}
    (hnext : Stage.nextOperator head token (base + part.length) c = .error failure) :
    Refused base (part ++ [c]) failure := by
  unfold Stage.nextOperator at hnext
  split at hnext
  · split at hnext <;> cases hnext
    exact (Misplaced.unexpected c _).refused []
  · split at hnext
    · next hmark =>
      split at hnext <;> cases hnext
      exact (Misplaced.badOperator hmark _).refused []
    · next hmark =>
      split at hnext
      · cases hnext
        exact (Misplaced.noOperator (by simpa using hmark)).refused []
      · unfold Stage.startOperand at hnext
        split at hnext
        · next hcolon =>
          subst hcolon
          cases hnext
          exact Misplaced.noOperand.refused []
        · cases hnext

theorem refused_badRange {fault : RangeFault}
    (h : Stage.badRange (base + part.length) fault = .error failure) :
    Refused base (part ++ [c]) failure := by
  cases h
  exact (Misplaced.badRange c fault).refused []

theorem refused_next (h : Reached base part stage)
    (hnext : stage.next (base + part.length) c = .error failure) :
    Refused base (part ++ [c]) failure := by
  cases stage with
  | target =>
    simp only [Stage.next] at hnext
    split at hnext
    · cases hnext
    · split at hnext <;> cases hnext
      exact (Misplaced.unexpected c _).refused []
  | pointer digits => exact refused_nextPointer h hnext
  | mark =>
    simp only [Stage.next] at hnext
    split at hnext <;> cases hnext
    exact (Misplaced.unexpected c _).refused []
  | operator head token => exact refused_nextOperator hnext
  | rangeLow =>
    simp only [Stage.next, Stage.nextRangeLow] at hnext
    repeat' split at hnext
    all_goals first | exact refused_badRange hnext | cases hnext
  | rangeDot =>
    simp only [Stage.next, Stage.nextRangeDot] at hnext
    split at hnext
    · cases hnext
    · exact refused_badRange hnext
  | rangeHigh =>
    simp only [Stage.next, Stage.nextRangeHigh] at hnext
    repeat' split at hnext
    all_goals first | exact refused_badRange hnext | cases hnext
  | operand head o start text =>
    -- the failure points back to where the operand starts
    obtain ⟨before, d, more, rfl, rfl, htext, hbefore⟩ := h
    simp only [Stage.next, Stage.nextOperand] at hnext
    split at hnext
    · cases hnext
    · obtain ⟨operand, hoperand, rfl⟩ := operandRead_eq_error (map_eq_error_iff.1 hnext)
      obtain ⟨rfl, rfl⟩ := List.cons.inj (htext.symm.trans hoperand)
      rw [hoperand, List.append_assoc]
      exact (Misplaced.badOperand _ hbefore).refused _
  | result | fallback => cases hnext

/-! The run over the head of a branch, and over what comes after it. -/

theorem reached_or_refused (hready : Ready p.stage) (hreached : Reached base part p.stage)
    (hcolon : ':' ∉ s) :
    (∃ q, p.feedAll (base + part.length) s = .ok q ∧ Ready q.stage ∧
        Reached base (part ++ s) q.stage) ∨
      ∃ failure, p.feedAll (base + part.length) s = .error failure ∧
        Refused base (part ++ s) failure := by
  induction s generalizing p part with
  | nil => exact .inl ⟨p, rfl, hready, by rwa [List.append_nil]⟩
  | cons c s ih =>
    obtain ⟨hc, hcolon⟩ : c ≠ ':' ∧ ':' ∉ s := by simpa [eq_comm] using hcolon
    have hlen : base + part.length + 1 = base + (part ++ [c]).length := by simp [Nat.add_assoc]
    rw [List.append_cons, feedAll_cons, feed_of_ready hready, hlen]
    split
    · next hblank => exact ih hready (hreached.blank hblank) hcolon
    · next hblank =>
      cases hnext : p.stage.next (base + part.length) c with
      | error failure => exact .inr ⟨failure, rfl, (refused_next hreached hnext).append s⟩
      | ok stage =>
        have hstep := step_of_next hnext
        exact ih (p := ⟨p.branches, stage⟩) (hstep.ready hready hc)
          (hstep.reached hreached (Bool.eq_false_iff.2 hblank)) hcolon

theorem unfinished_of_close (h : p.close offset = .error failure) :
    ∃ defect, failure = .malformed offset defect ∧ Unfinished defect := by
  unfold Pending.close at h
  split at h
  · split at h <;> cases h
    exact ⟨_, rfl, .noResult⟩
  all_goals cases h
  · exact ⟨_, rfl, .noFallback⟩
  · exact ⟨_, rfl, .noFallback⟩
  · exact ⟨_, rfl, .endsEarly _⟩
  · exact ⟨_, rfl, .endsEarly _⟩
  · exact ⟨_, rfl, .endsEarly _⟩

theorem rejected_of_close (h : p.close (base + s.length) = .error failure) :
    Rejected base s failure := .inr (unfinished_of_close h)

theorem Rejected.branch (hhead : ComparisonText (squeeze head) comparison)
    (hresult : ResultText result)
    (h : Rejected (base + head.length + 1 + result.length + 1) rest failure) :
    Rejected base (head ++ ':' :: (result ++ '|' :: rest)) failure := by
  have hlen (s : List Char) : base + head.length + 1 + result.length + 1 + s.length =
      base + (head ++ ':' :: (result ++ '|' :: s)).length := by
    simp only [List.length_append, List.length_cons]
    omega
  rw [Rejected, hlen rest] at h
  rcases h with ⟨earlier, branch, rfl, hearlier, hbranch⟩ | hunfinished
  · rw [hlen earlier] at hbranch
    exact .inl ⟨head ++ ':' :: (result ++ '|' :: earlier), branch, by simp,
      .cons hhead hresult hearlier, hbranch⟩
  · exact .inr hunfinished

theorem head_reached_or_refused (branches : List Branch) (base : Nat) (hcolon : ':' ∉ head) :
    (∃ q, Pending.feedAll ⟨branches, .target⟩ base head = .ok q ∧ Ready q.stage ∧
        Reached base head q.stage) ∨
      ∃ failure, Pending.feedAll ⟨branches, .target⟩ base head = .error failure ∧
        Refused base head failure := by
  have hreached : Reached base [] .target := rfl
  exact reached_or_refused (p := ⟨branches, .target⟩) trivial hreached hcolon

theorem refused_of_head (hcolon : ':' ∉ head)
    (h : Pending.feedAll ⟨branches, .target⟩ base (head ++ [':']) = .error failure) :
    Refused base (head ++ [':']) failure := by
  rw [feedAll_append] at h
  rcases head_reached_or_refused branches base hcolon with
    ⟨q, hq, hready, hreached⟩ | ⟨failure', hfailed, hrefused⟩
  · have hblank : ¬Text.isBlank ':' = true := by decide
    rw [hq] at h
    change q.feedAll (base + head.length) [':'] = _ at h
    rw [feedAll_cons, feed_of_ready hready, if_neg hblank] at h
    rcases bind_eq_error_iff.1 h with hfeed | ⟨q', -, hrest⟩
    · exact refused_next hreached (map_eq_error_iff.1 hfeed)
    · cases hrest
  · rw [hfailed] at h
    cases h
    exact hrefused.append [':']

theorem rejected_of_no_colon (hcolon : ':' ∉ s)
    (h : finish ⟨branches, .target⟩ base s = .error failure) : Rejected base s failure := by
  rcases bind_eq_error_iff.1 h with hfeed | ⟨q, -, hclose⟩
  · rcases head_reached_or_refused branches base hcolon with
      ⟨q, hq, -⟩ | ⟨failure', hfailed, hrefused⟩
    · cases hfeed.symm.trans hq
    · cases hfeed.symm.trans hfailed
      exact hrefused.rejected
  · exact rejected_of_close hclose

theorem rejected_of_fallback (h : finish ⟨branches, .fallback ""⟩ (base + s.length) rest = .error failure) :
    Rejected base (s ++ rest) failure := by
  by_cases hs : '|' ∈ rest
  · obtain ⟨result, rest, rfl, hresult⟩ := List.eq_append_cons_of_mem hs
    rw [finish, feedAll_fallback hresult] at h
    cases h
    rw [Nat.add_assoc, ← List.length_append, ← List.append_assoc]
    exact (Misplaced.fallbackNotLast.refused rest).rejected
  · have hfeed := @feedAll_fallback rest [] (base + s.length) branches hs
    rw [List.append_nil] at hfeed
    rw [finish, hfeed] at h
    change Pending.close ⟨branches, .fallback (String.ofList rest)⟩ _ = _ at h
    rw [Nat.add_assoc, ← List.length_append] at h
    exact rejected_of_close h

theorem rejected_of_result (hhead : ComparisonText (squeeze head) comparison)
    (h : finish ⟨branches, .result comparison ""⟩ (base + (head ++ [':']).length) s =
      .error failure)
    (hlater : ∀ result rest branches base, s = result ++ '|' :: rest →
      finish ⟨branches, .target⟩ base rest = .error failure → Rejected base rest failure) :
    Rejected base (head ++ ':' :: s) failure := by
  by_cases hs : '|' ∈ s
  · obtain ⟨result, rest, rfl, hresult⟩ := List.eq_append_cons_of_mem hs
    rw [finish_separator hresult] at h
    split at h
    · cases h
      rw [Nat.add_assoc, ← List.length_append, List.append_cons, ← List.append_assoc]
      exact (Misplaced.noResult.refused rest).rejected
    · next htrim =>
      rw [List.length_append, ← Nat.add_assoc] at h
      exact (hlater _ _ _ _ rfl h).branch hhead ⟨hresult, htrim⟩
  · cases h.symm.trans (finish_of_no_separator hs)
    rw [Nat.add_assoc, ← List.length_append, List.append_cons]
    exact .inr ⟨_, rfl, .noFallback⟩

/-- A text that is refused as a condition is refused at a character of a branch that follows whole
ones, or at its end. -/
theorem rejected_of_finish (h : finish ⟨branches, .target⟩ base s = .error failure) :
    Rejected base s failure := by
  -- a branch leaves a shorter text after its separator
  induction hn : s.length using Nat.strongRecOn generalizing s base branches with
  | ind n ih =>
    by_cases hcolon : ':' ∈ s
    · obtain ⟨head, rest, rfl, hhead⟩ := List.eq_append_cons_of_mem hcolon
      rw [List.append_cons, finish_append] at h
      rcases bind_eq_error_iff.1 h with hrefused | ⟨q, hq, hrest⟩
      · rw [List.append_cons]
        exact ((refused_of_head hhead hrefused).append rest).rejected
      · obtain ⟨goal, hgoal, hq⟩ := (feedAll_head (p := ⟨branches, .target⟩) trivial hhead).1 hq
        obtain rfl := Except.ok.inj hq
        rcases leads_target_cases hgoal with ⟨-, rfl⟩ | ⟨c, rfl⟩
        · rw [List.append_cons]
          exact rejected_of_fallback hrest
        · have hno : ':' ∉ squeeze head := fun h ↦ hhead (colon_mem_squeeze.1 h)
          refine rejected_of_result ((leads_target_iff hno).1 hgoal) hrest ?_
          intro result rest' branches' base' hsplit hrest'
          subst hsplit
          refine ih _ ?_ hrest' rfl
          simp only [List.length_append, List.length_cons] at hn
          omega
    · exact rejected_of_no_colon hcolon h

theorem rejected_of_read {lead : String} (h : Condition.read lead base s = .error failure) :
    Rejected base s failure := by
  rw [read_eq_finish] at h
  exact rejected_of_finish (map_eq_error_iff.1 h)

end Phrasing.Grammar
