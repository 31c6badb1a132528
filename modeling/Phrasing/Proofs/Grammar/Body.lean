import Phrasing.Proofs.Grammar.Stage
import Phrasing.Proofs.Text.Trim

/-!
The grammar of conditions, and that a condition is read just when the grammar derives its text.
-/

namespace Phrasing.Grammar

open Outcome

/-- A comparison without blanks: a target, an optional negation, and an operator with its operand. -/
inductive ComparisonText : List Char → Comparison → Prop
  | plain {digits operand : List Char} {n : Nat} {negate : Bool} {o : Operator} {x : Operand}
      (htarget : Index digits n) (ho : o ≠ .range) (hne : operand ≠ []) (hcolon : ':' ∉ operand)
      (hunmarked : Unmarked operand) (hx : OperandText operand x) :
      ComparisonText ('{' :: (digits ++ '}' :: ((if negate then ['!'] else []) ++
        (o.token.toList ++ operand)))) ⟨n, o, negate, x⟩
  | range {digits low high : List Char} {n l h : Nat} {negate : Bool} (htarget : Index digits n)
      (hlow : Whole low l) (hhigh : Whole high h) :
      ComparisonText ('{' :: (digits ++ '}' :: ((if negate then ['!'] else []) ++
        '~' :: (low ++ '.' :: '.' :: high))))
        ⟨n, .range, negate, .range (Decimal.toBinary64 false ⟨l, 0⟩) (Decimal.toBinary64 false ⟨h, 0⟩)⟩

def squeeze (s : List Char) : List Char := s.filter fun c ↦ !Text.isBlank c

/-- No branch ends inside a result, and something of it is left after trimming. -/
def ResultText (s : List Char) : Prop := '|' ∉ s ∧ Text.trim s ≠ []

/-- The text of a condition, its branches and its fallback. Blanks count in results only. -/
inductive Body : List Char → List Branch → String → Prop
  | fallback {mark result : List Char} (hmark : squeeze mark = ['*'])
      (hresult : ResultText result) :
      Body (mark ++ ':' :: result) [] (String.ofList (Text.trim result))
  | branch {head result rest : List Char} {c : Comparison} {branches : List Branch}
      {fallback : String} (hhead : ComparisonText (squeeze head) c) (hresult : ResultText result)
      (hrest : Body rest branches fallback) :
      Body (head ++ ':' :: (result ++ '|' :: rest))
        (⟨c, String.ofList (Text.trim result)⟩ :: branches) fallback

variable {s head rest : List Char} {offset : Nat} {p q : Pending} {c : Char}

theorem feed_of_ready (h : Ready p.stage) : p.feed offset c =
    if Text.isBlank c then .ok p
    else (p.stage.next offset c).map fun stage ↦ ⟨p.branches, stage⟩ := by
  obtain ⟨branches, stage⟩ := p
  cases stage with
  | result | fallback => cases h
  | _ => simp [Pending.feed, Stage.isVerbatim]

theorem feedAll_cons : p.feedAll offset (c :: s) =
    (p.feed offset c >>= fun p ↦ p.feedAll (offset + 1) s) := rfl

theorem feedAll_append (p : Pending) (offset : Nat) (s t : List Char) :
    p.feedAll offset (s ++ t) = p.feedAll offset s >>= fun q ↦ q.feedAll (offset + s.length) t := by
  induction s generalizing p offset with
  | nil => rfl
  | cons c s ih =>
    have hlen : offset + (c :: s).length = offset + 1 + s.length := by
      rw [List.length_cons]
      omega
    rw [List.cons_append, feedAll_cons, feedAll_cons, hlen]
    cases p.feed offset c with
    | error => rfl
    | ok p => exact ih p (offset + 1)

theorem squeeze_cons (c : Char) (s : List Char) :
    squeeze (c :: s) = if Text.isBlank c then squeeze s else c :: squeeze s := by
  cases h : Text.isBlank c <;> simp [squeeze, h]

theorem feedAll_head (hready : Ready p.stage) (hcolon : ':' ∉ head) :
    p.feedAll offset (head ++ ':' :: rest) = .ok q ↔ ∃ goal, Leads p.stage (squeeze head) goal ∧
      Pending.feedAll ⟨p.branches, goal⟩ (offset + head.length + 1) rest = .ok q := by
  induction head generalizing p offset with
  | nil =>
    have hblank : ¬Text.isBlank ':' = true := by decide
    rw [List.nil_append, feedAll_cons, feed_of_ready hready, if_neg hblank, bind_eq_ok_iff]
    simp only [map_eq_ok_iff, squeeze, List.filter_nil, leads_nil hready offset]
    constructor
    · intro h
      obtain ⟨-, ⟨goal, hgoal, rfl⟩, h⟩ := h
      exact ⟨goal, hgoal, h⟩
    · intro h
      obtain ⟨goal, hgoal, h⟩ := h
      exact ⟨_, ⟨goal, hgoal, rfl⟩, h⟩
  | cons c head ih =>
    obtain ⟨hc, hcolon⟩ : c ≠ ':' ∧ ':' ∉ head := by simpa [eq_comm] using hcolon
    have hlen : offset + (c :: head).length + 1 = offset + 1 + head.length + 1 := by
      rw [List.length_cons]
      omega
    rw [List.cons_append, feedAll_cons, feed_of_ready hready, squeeze_cons, hlen]
    split
    · exact ih hready hcolon
    · simp only [bind_eq_ok_iff, map_eq_ok_iff, leads_cons hready hc offset]
      constructor
      · intro h
        obtain ⟨-, ⟨stage, hstage, rfl⟩, h⟩ := h
        obtain ⟨goal, hgoal, h⟩ := (ih ((step_of_next hstage).ready hready hc) hcolon).1 h
        exact ⟨goal, ⟨stage, hstage, hgoal⟩, h⟩
      · intro h
        obtain ⟨goal, ⟨stage, hstage, hgoal⟩, h⟩ := h
        exact ⟨_, ⟨stage, hstage, rfl⟩, (ih ((step_of_next hstage).ready hready hc) hcolon).2 ⟨goal, hgoal, h⟩⟩

theorem ready_feedAll (hready : Ready p.stage) (hcolon : ':' ∉ s)
    (h : p.feedAll offset s = .ok q) : Ready q.stage := by
  induction s generalizing p offset with
  | nil =>
    obtain rfl := Except.ok.inj h
    exact hready
  | cons c s ih =>
    obtain ⟨hc, hcolon⟩ : c ≠ ':' ∧ ':' ∉ s := by simpa [eq_comm] using hcolon
    rw [feedAll_cons, feed_of_ready hready] at h
    split at h
    · exact ih hready hcolon h
    · obtain ⟨p', hp', h⟩ := bind_eq_ok_iff.1 h
      obtain ⟨stage, hstage, rfl⟩ := map_eq_ok_iff.1 hp'
      exact ih ((step_of_next hstage).ready hready hc) hcolon h

theorem push_ofList (s : List Char) (c : Char) :
    (String.ofList s).push c = String.ofList (s ++ [c]) := by
  rw [← String.toList_inj, String.toList_push, String.toList_ofList, String.toList_ofList]

theorem feedAll_verbatim (stage : String → Stage) {branches : List Branch} (text : List Char)
    (hfeed : ∀ text offset c, c ≠ '|' →
      Pending.feed ⟨branches, stage text⟩ offset c = .ok ⟨branches, stage (text.push c)⟩)
    (hs : '|' ∉ s) :
    Pending.feedAll ⟨branches, stage (String.ofList text)⟩ offset (s ++ rest) =
      Pending.feedAll ⟨branches, stage (String.ofList (text ++ s))⟩ (offset + s.length) rest := by
  induction s generalizing text offset with
  | nil => simp
  | cons c s ih =>
    obtain ⟨hc, hs⟩ : c ≠ '|' ∧ '|' ∉ s := by simpa [eq_comm] using hs
    have hlen : offset + (c :: s).length = offset + 1 + s.length := by
      rw [List.length_cons]
      omega
    have h := @ih (offset + 1) (text ++ [c]) hs
    rw [← List.append_cons text c s] at h
    rw [List.cons_append, feedAll_cons, hfeed _ _ _ hc, push_ofList, hlen]
    exact h

variable {branches all : List Branch} {fallback : String} {comparison : Comparison}

theorem feed_result {text : String} (hc : c ≠ '|') :
    Pending.feed ⟨branches, .result comparison text⟩ offset c =
      .ok ⟨branches, .result comparison (text.push c)⟩ := by
  simp [Pending.feed, Stage.isVerbatim, Stage.next, Except.map, hc]

theorem feed_fallback {text : String} (hc : c ≠ '|') :
    Pending.feed ⟨branches, .fallback text⟩ offset c = .ok ⟨branches, .fallback (text.push c)⟩ := by
  simp [Pending.feed, Stage.isVerbatim, Stage.next, Except.map, hc]

theorem feedAll_result (hs : '|' ∉ s) :
    Pending.feedAll ⟨branches, .result comparison ""⟩ offset (s ++ rest) =
      Pending.feedAll ⟨branches, .result comparison (String.ofList s)⟩ (offset + s.length) rest :=
  feedAll_verbatim (.result comparison) [] (fun _ _ _ hc ↦ feed_result hc) hs

theorem feedAll_fallback (hs : '|' ∉ s) :
    Pending.feedAll ⟨branches, .fallback ""⟩ offset (s ++ rest) =
      Pending.feedAll ⟨branches, .fallback (String.ofList s)⟩ (offset + s.length) rest :=
  feedAll_verbatim .fallback [] (fun _ _ _ hc ↦ feed_fallback hc) hs

def finish (p : Pending) (offset : Nat) (s : List Char) : Except Failure (List Branch × String) := do
  (← p.feedAll offset s).close (offset + s.length)

theorem finish_append (p : Pending) (offset : Nat) (s t : List Char) :
    finish p offset (s ++ t) = p.feedAll offset s >>= fun q ↦ finish q (offset + s.length) t := by
  have hlen : offset + (s ++ t).length = offset + s.length + t.length := by
    rw [List.length_append, Nat.add_assoc]
  rw [finish, feedAll_append, hlen]
  cases p.feedAll offset s <;> rfl

theorem finish_head (hready : Ready p.stage) (hcolon : ':' ∉ head) :
    finish p offset (head ++ ':' :: rest) = .ok (all, fallback) ↔
      ∃ goal, Leads p.stage (squeeze head) goal ∧
        finish ⟨p.branches, goal⟩ (offset + head.length + 1) rest = .ok (all, fallback) := by
  have hlen : offset + (head ++ ':' :: rest).length = offset + head.length + 1 + rest.length := by
    rw [List.length_append, List.length_cons]
    omega
  simp only [finish, bind_eq_ok_iff, feedAll_head hready hcolon, hlen]
  constructor
  · intro h
    obtain ⟨q, ⟨goal, hgoal, hq⟩, h⟩ := h
    exact ⟨goal, hgoal, q, hq, h⟩
  · intro h
    obtain ⟨goal, hgoal, q, hq, h⟩ := h
    exact ⟨q, ⟨goal, hgoal, hq⟩, h⟩

theorem finish_of_no_colon (hready : Ready p.stage) (hcolon : ':' ∉ s) :
    finish p offset s ≠ .ok (all, fallback) := by
  intro h
  obtain ⟨q, hq, h⟩ := bind_eq_ok_iff.1 h
  have hq := ready_feedAll hready hcolon hq
  unfold Pending.close at h
  split at h
  · next hstage =>
    rw [hstage] at hq
    cases hq
  all_goals cases h

theorem feed_separator :
    Pending.feed ⟨branches, .result comparison (String.ofList s)⟩ offset '|' =
      if Text.trim s = [] then .error (.malformed offset .noResult)
      else .ok ⟨branches ++ [⟨comparison, String.ofList (Text.trim s)⟩], .target⟩ := by
  simp [Pending.feed, Text.isBlankText_ofList, Text.trimmed]

theorem finish_separator (hs : '|' ∉ s) :
    finish ⟨branches, .result comparison ""⟩ offset (s ++ '|' :: rest) =
      if Text.trim s = [] then .error (.malformed (offset + s.length) .noResult)
      else finish ⟨branches ++ [⟨comparison, String.ofList (Text.trim s)⟩], .target⟩
        (offset + s.length + 1) rest := by
  have hlen : offset + (s ++ '|' :: rest).length = offset + s.length + 1 + rest.length := by
    rw [List.length_append, List.length_cons]
    omega
  rw [finish, feedAll_result hs, feedAll_cons, feed_separator, hlen]
  split <;> rfl

theorem finish_result (hs : '|' ∉ s) :
    finish ⟨branches, .result comparison ""⟩ offset (s ++ '|' :: rest) = .ok (all, fallback) ↔
      Text.trim s ≠ [] ∧
        finish ⟨branches ++ [⟨comparison, String.ofList (Text.trim s)⟩], .target⟩
          (offset + s.length + 1) rest = .ok (all, fallback) := by
  rw [finish_separator hs]
  split
  · next hblank => simp [hblank]
  · next hblank => simp [hblank]

theorem finish_of_no_separator (hs : '|' ∉ s) :
    finish ⟨branches, .result comparison ""⟩ offset s =
      .error (.malformed (offset + s.length) .noFallback) := by
  have h := @feedAll_result s [] offset branches comparison hs
  rw [List.append_nil] at h
  rw [finish, h]
  rfl

theorem finish_fallback :
    finish ⟨branches, .fallback ""⟩ offset s = .ok (all, fallback) ↔
      ResultText s ∧ all = branches ∧ fallback = String.ofList (Text.trim s) := by
  by_cases hs : '|' ∈ s
  · obtain ⟨result, rest, rfl, hresult⟩ := List.eq_append_cons_of_mem hs
    rw [finish, feedAll_fallback hresult]
    constructor
    · intro h
      cases h
    · intro h
      obtain ⟨⟨hno, -⟩, -⟩ := h
      exact absurd hs hno
  · have h := @feedAll_fallback s [] offset branches hs
    rw [List.append_nil] at h
    rw [finish, h]
    change Pending.close ⟨branches, .fallback (String.ofList s)⟩ _ = _ ↔ _
    simp only [Pending.close, Text.isBlankText_ofList, ResultText, Text.trimmed, String.toList_ofList]
    split
    · next hblank => simp [hblank]
    · next hblank => simp [hblank, hs, eq_comm]

theorem operatorLeads_target {n : Nat} {goal : Stage} : OperatorLeads ⟨n, false⟩ [] s goal ↔
    ∃ negate t, s = (if negate then ['!'] else []) ++ t ∧ TokenLeads ⟨n, negate⟩ [] t goal := by
  constructor
  · intro h
    rcases h with ⟨-, -, t, rfl, h⟩ | h
    · exact ⟨true, t, rfl, h⟩
    · exact ⟨false, s, rfl, h⟩
  · intro h
    obtain ⟨negate, t, rfl, h⟩ := h
    cases negate with
    | false => exact .inr h
    | true => exact .inl ⟨rfl, rfl, t, rfl, h⟩

theorem whole_of_digits {digits : List Char} (hne : digits ≠ []) (h : ∀ c ∈ digits, c.isDigit) :
    Whole digits (Nat.ofDigitChars 10 digits 0) := ⟨⟨hne, h⟩, rfl⟩

theorem leads_target_iff (hcolon : ':' ∉ s) :
    Leads .target s (.result comparison "") ↔ ComparisonText s comparison := by
  constructor
  · intro h
    rcases h with ⟨-, h⟩ | ⟨-, rfl, digits, rest, n, rfl, htarget, hoperator⟩
    · cases h
    · obtain ⟨negate, t, rfl, htoken⟩ := operatorLeads_target.1 hoperator
      rcases htoken with ⟨-, -, rfl, low, high, rfl, hlow, hnelow, hhigh, hnehigh, h⟩ |
        ⟨o, marks, operand, ho, rfl, hne, hunmarked, horange, x, hx, h⟩
      · obtain ⟨rfl, -⟩ := Stage.result.inj h
        exact .range htarget (whole_of_digits hnelow hlow) (whole_of_digits hnehigh hhigh)
      · obtain ⟨rfl, -⟩ := Stage.result.inj h
        obtain rfl : o.token.toList = marks := ho
        exact .plain htarget horange hne (by simp_all) hunmarked hx
  · intro h
    cases h with
    | plain htarget ho hne _ hunmarked hx =>
      refine .inr ⟨_, rfl, _, _, _, rfl, htarget, operatorLeads_target.2 ⟨_, _, rfl, .inr ?_⟩⟩
      exact ⟨_, _, _, rfl, rfl, hne, hunmarked, ho, _, hx, rfl⟩
    | range htarget hlow hhigh =>
      refine .inr ⟨_, rfl, _, _, _, rfl, htarget, operatorLeads_target.2 ⟨_, _, rfl, .inl ?_⟩⟩
      refine ⟨rfl, _, rfl, _, _, rfl, hlow.1.2, hlow.1.1, hhigh.1.2, hhigh.1.1, ?_⟩
      rw [← hlow.2, ← hhigh.2]
      rfl

theorem leads_target_cases {goal : Stage} (h : Leads .target s goal) :
    (s = ['*'] ∧ goal = .fallback "") ∨ ∃ c, goal = .result c "" := by
  rcases h with h | ⟨-, rfl, digits, rest, n, rfl, -, hoperator⟩
  · exact .inl h
  · obtain ⟨negate, t, rfl, htoken⟩ := operatorLeads_target.1 hoperator
    rcases htoken with ⟨-, -, rfl, low, high, -, -, -, -, -, h⟩ | ⟨o, marks, operand, -, -, -, -, -, x, -, h⟩
    · exact .inr ⟨_, h⟩
    · exact .inr ⟨_, h⟩

theorem colon_not_mem_of_digits {digits : List Char} (h : ∀ c ∈ digits, c.isDigit) :
    ':' ∉ digits := by
  intro hmem
  exact absurd (h _ hmem) (by decide)

theorem ComparisonText.colon_not_mem (h : ComparisonText s comparison) : ':' ∉ s := by
  cases h with
  | @plain digits operand n negate o x htarget ho hne hcolon hunmarked hx =>
    have hdigits := colon_not_mem_of_digits htarget.1.1.2
    have htoken : ':' ∉ o.token.toList := by cases o <;> decide
    cases negate <;> simp [hdigits, htoken, hcolon]
  | @range digits low high n l h negate htarget hlow hhigh =>
    have hdigits := colon_not_mem_of_digits htarget.1.1.2
    have hlow := colon_not_mem_of_digits hlow.1.2
    have hhigh := colon_not_mem_of_digits hhigh.1.2
    cases negate <;> simp [hdigits, hlow, hhigh]

theorem colon_mem_squeeze : ':' ∈ squeeze s ↔ ':' ∈ s := by
  have hblank : Text.isBlank ':' = false := by decide
  simp [squeeze, hblank]

theorem body_of_finish (h : finish ⟨branches, .target⟩ offset s = .ok (all, fallback)) :
    ∃ new, all = branches ++ new ∧ Body s new fallback := by
  -- a branch leaves a shorter text after its separator
  induction hn : s.length using Nat.strongRecOn generalizing s offset branches with
  | ind n ih =>
    by_cases hcolon : ':' ∈ s
    · obtain ⟨head, rest, rfl, hhead⟩ := List.eq_append_cons_of_mem hcolon
      obtain ⟨goal, hgoal, hrest⟩ := (finish_head (p := ⟨branches, .target⟩) trivial hhead).1 h
      rcases leads_target_cases hgoal with ⟨hmark, rfl⟩ | ⟨c, rfl⟩
      · obtain ⟨hresult, rfl, rfl⟩ := finish_fallback.1 hrest
        exact ⟨[], by simp, .fallback hmark hresult⟩
      · by_cases hs : '|' ∈ rest
        · obtain ⟨result, rest, rfl, hresult⟩ := List.eq_append_cons_of_mem hs
          obtain ⟨htrim, hlater⟩ := (finish_result hresult).1 hrest
          have hlt : rest.length < n := by
            simp only [List.length_append, List.length_cons] at hn
            omega
          obtain ⟨new, rfl, hbody⟩ := ih _ hlt hlater rfl
          have hno : ':' ∉ squeeze head := fun h ↦ hhead (colon_mem_squeeze.1 h)
          refine ⟨_ :: new, by simp, .branch ((leads_target_iff hno).1 hgoal) ⟨hresult, htrim⟩ hbody⟩
        · cases hrest.symm.trans (finish_of_no_separator hs)
    · exact absurd h (finish_of_no_colon trivial hcolon)

theorem finish_of_body {new : List Branch} (h : Body s new fallback) :
    finish ⟨branches, .target⟩ offset s = .ok (branches ++ new, fallback) := by
  induction h generalizing branches offset with
  | @fallback mark result hmark hresult =>
    have hno : ':' ∉ mark := by
      intro h
      rw [← colon_mem_squeeze, hmark] at h
      simp at h
    exact (finish_head (p := ⟨branches, .target⟩) trivial hno).2 ⟨_, .inl ⟨hmark, rfl⟩, finish_fallback.2 ⟨hresult, by simp, rfl⟩⟩
  | @branch head result rest c later fallback hhead hresult hrest ih =>
    have hno : ':' ∉ squeeze head := hhead.colon_not_mem
    refine (finish_head (p := ⟨branches, .target⟩) trivial fun h ↦ hno (colon_mem_squeeze.2 h)).2
      ⟨_, (leads_target_iff hno).2 hhead, (finish_result hresult.1).2 ⟨hresult.2, ?_⟩⟩
    rw [ih, List.append_assoc]
    rfl

theorem read_eq_finish (lead : String) (offset : Nat) (s : List Char) :
    Condition.read lead offset s =
      (finish .start offset s).map fun r ↦ ⟨lead, r.1, some r.2⟩ := by
  unfold Condition.read finish
  cases Pending.start.feedAll offset s with
  | error => rfl
  | ok p => cases hclose : p.close (offset + s.length) <;> simp [hclose, bind, Except.bind, Except.map, pure, Except.pure]

theorem read_iff_body {lead : String} {c : Condition} : Condition.read lead offset s = .ok c ↔
    c.lead = lead ∧ ∃ fallback, c.fallback = some fallback ∧ Body s c.branches fallback := by
  rw [read_eq_finish, map_eq_ok_iff]
  constructor
  · intro h
    obtain ⟨⟨branches, fallback⟩, h, rfl⟩ := h
    obtain ⟨new, rfl, hbody⟩ := body_of_finish h
    exact ⟨rfl, fallback, rfl, hbody⟩
  · intro h
    obtain ⟨rfl, fallback, hfallback, hbody⟩ := h
    refine ⟨_, finish_of_body hbody, ?_⟩
    simp [← hfallback]

end Phrasing.Grammar
