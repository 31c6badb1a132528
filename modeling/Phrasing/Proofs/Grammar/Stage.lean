import Phrasing.Proofs.Grammar.Operand
import Phrasing.Proofs.Grammar.Step

/-!
What a reader of conditions still expects at each stage before a result.

`Leads stage s goal` says that the blank-free text `s` and a colon after it lead from the stage to
`goal`, the start of a result. It is said without the reader; the reader takes a character off `s`.
-/

namespace Phrasing.Grammar

def bound (digits : List Char) : Binary64 := (Decimal.ofDigits digits).toBinary64 false

def HighLeads (head : Head) (low high s : List Char) (goal : Stage) : Prop :=
  (∀ c ∈ s, c.isDigit) ∧ high ++ s ≠ [] ∧
    goal = .result ⟨head.target, .range, head.negate, .range (bound low) (bound (high ++ s))⟩ ""

def LowLeads (head : Head) (low s : List Char) (goal : Stage) : Prop :=
  ∃ more high, s = more ++ '.' :: '.' :: high ∧ (∀ c ∈ more, c.isDigit) ∧ low ++ more ≠ [] ∧
    HighLeads head (low ++ more) [] high goal

def OperandLeads (head : Head) (o : Operator) (text s : List Char) (goal : Stage) : Prop :=
  o ≠ .range ∧ ∃ x, OperandText (text ++ s) x ∧ goal = .result ⟨head.target, o, head.negate, x⟩ ""

/-- No mark of an operator stands first. -/
def Unmarked (s : List Char) : Prop := ∀ c, s.head? = some c → Operator.isMark c = false

def TokenLeads (head : Head) (token s : List Char) (goal : Stage) : Prop :=
  (token = [] ∧ ∃ rest, s = '~' :: rest ∧ LowLeads head [] rest goal) ∨
    ∃ o marks operand, o.token.toList = token ++ marks ∧ s = marks ++ operand ∧
      operand ≠ [] ∧ Unmarked operand ∧ OperandLeads head o [] operand goal

def OperatorLeads (head : Head) (token s : List Char) (goal : Stage) : Prop :=
  (token = [] ∧ head.negate = false ∧
    ∃ rest, s = '!' :: rest ∧ TokenLeads { head with negate := true } [] rest goal) ∨
  TokenLeads head token s goal

def PointerLeads (digits s : List Char) (goal : Stage) : Prop :=
  ∃ more rest n, s = more ++ '}' :: rest ∧ Index (digits ++ more) n ∧
    OperatorLeads ⟨n, false⟩ [] rest goal

def Leads : Stage → List Char → Stage → Prop
  | .target, s, goal =>
    (s = ['*'] ∧ goal = .fallback "") ∨ ∃ rest, s = '{' :: rest ∧ PointerLeads [] rest goal
  | .pointer digits, s, goal => PointerLeads digits.toList s goal
  | .mark, s, goal => s = [] ∧ goal = .fallback ""
  | .operator head token, s, goal => OperatorLeads head token.toList s goal
  | .rangeLow head low, s, goal => LowLeads head low.toList s goal
  | .rangeDot head low, s, goal => ∃ high, s = '.' :: high ∧ HighLeads head low.toList [] high goal
  | .rangeHigh head low high, s, goal => HighLeads head low.toList high.toList s goal
  | .operand head o _ text, s, goal => OperandLeads head o text.toList s goal
  | .result .., _, _ | .fallback _, _, _ => False

variable {head : Head} {o : Operator} {s low high token digits text : List Char} {goal : Stage}
  {c : Char} {offset : Nat}

theorem highLeads_cons : HighLeads head low high (c :: s) goal ↔
    c.isDigit ∧ HighLeads head low (high ++ [c]) s goal := by
  simp [HighLeads, and_assoc]

theorem lowLeads_cons : LowLeads head low (c :: s) goal ↔
    (c.isDigit ∧ LowLeads head (low ++ [c]) s goal) ∨
      (c = '.' ∧ low ≠ [] ∧ ∃ high, s = '.' :: high ∧ HighLeads head low [] high goal) := by
  constructor
  · intro h
    obtain ⟨more, high, hs, hmore, hlow, hhigh⟩ := h
    cases more with
    | nil =>
      obtain ⟨rfl, rfl⟩ := List.cons.inj hs
      rw [List.append_nil] at hlow hhigh
      exact .inr ⟨rfl, hlow, high, rfl, hhigh⟩
    | cons d more =>
      obtain ⟨rfl, rfl⟩ := List.cons.inj hs
      refine .inl ⟨hmore c (by simp), more, high, rfl, fun d hd ↦ hmore d (by simp [hd]), ?_, ?_⟩
      · simp
      · simpa using hhigh
  · intro h
    rcases h with ⟨hc, more, high, rfl, hmore, hlow, hhigh⟩ | ⟨rfl, hlow, high, rfl, hhigh⟩
    · refine ⟨c :: more, high, rfl, List.forall_mem_cons.2 ⟨hc, hmore⟩, by simp, ?_⟩
      simpa using hhigh
    · exact ⟨[], high, rfl, by simp, by simpa using hlow, by simpa using hhigh⟩

theorem operandLeads_cons : OperandLeads head o text (c :: s) goal ↔
    OperandLeads head o (text ++ [c]) s goal := by
  simp [OperandLeads]

theorem pointerLeads_cons : PointerLeads digits (c :: s) goal ↔
    (c.isDigit ∧ PointerLeads (digits ++ [c]) s goal) ∨
      (c = '}' ∧ ∃ n, Index digits n ∧ OperatorLeads ⟨n, false⟩ [] s goal) := by
  constructor
  · intro h
    obtain ⟨more, rest, n, hs, hn, hrest⟩ := h
    cases more with
    | nil =>
      obtain ⟨rfl, rfl⟩ := List.cons.inj hs
      rw [List.append_nil] at hn
      exact .inr ⟨rfl, n, hn, hrest⟩
    | cons d more =>
      obtain ⟨rfl, rfl⟩ := List.cons.inj hs
      exact .inl ⟨hn.1.1.2 c (by simp), more, rest, n, rfl, by simpa using hn, hrest⟩
  · intro h
    rcases h with ⟨-, more, rest, n, rfl, hn, hrest⟩ | ⟨rfl, n, hn, hrest⟩
    · exact ⟨c :: more, rest, n, rfl, by simpa using hn, hrest⟩
    · exact ⟨[], s, n, rfl, by simpa using hn, hrest⟩

theorem isMark_of_mem_token (h : c ∈ o.token.toList) : Operator.isMark c := by
  cases o <;> simp [Operator.token] at h <;> rcases h with rfl | rfl <;> rfl

theorem exists_token_of_append {marks : List Char} (h : o.token.toList = token ++ c :: marks) :
    ∃ o' : Operator, o'.token.toList = token ++ [c] := by
  have htake : token ++ [c] = o.token.toList.take (token.length + 1) := by
    rw [h, List.take_append, List.take_of_length_le (by omega)]
    simp
  rw [htake]
  generalize token.length = k
  have hwhole (o : Operator) (hlen : o.token.toList.length ≤ k + 1) :
      ∃ o' : Operator, o'.token.toList = o.token.toList.take (k + 1) :=
    ⟨o, (List.take_of_length_le hlen).symm⟩
  cases o with
  | equal | less | greater | range => exact hwhole _ (by simp [Operator.token])
  | lessOrEqual =>
    cases k with
    | zero => exact ⟨.less, rfl⟩
    | succ k => exact hwhole _ (by simp [Operator.token])
  | greaterOrEqual =>
    cases k with
    | zero => exact ⟨.greater, rfl⟩
    | succ k => exact hwhole _ (by simp [Operator.token])

theorem eq_range_of_token {rest : List Char} (h : o.token.toList = '~' :: rest) : o = .range := by
  cases o with
  | range => rfl
  | _ => simp [Operator.token] at h

theorem eq_nil_of_token_range (h : Operator.range.token.toList = token ++ [c]) :
    token = [] ∧ c = '~' := by
  have hlen := congrArg List.length h
  rw [List.length_append] at hlen
  have hnil : token = [] := List.length_eq_zero_iff.1 (by simpa [Operator.token] using hlen)
  subst hnil
  exact ⟨rfl, (List.cons.inj h).1.symm⟩

/-- A mark goes on with the token, and the range operator goes on with its bounds. -/
theorem tokenLeads_cons_mark (hc : Operator.isMark c) : TokenLeads head token (c :: s) goal ↔
    ∃ o : Operator, o.token.toList = token ++ [c] ∧
      if o.isRange then LowLeads head [] s goal else TokenLeads head (token ++ [c]) s goal := by
  constructor
  · intro h
    rcases h with ⟨rfl, rest, hs, hrest⟩ | ⟨o, marks, operand, ho, hs, hne, hunmarked, hx⟩
    · obtain ⟨rfl, rfl⟩ := List.cons.inj hs
      exact ⟨.range, rfl, by simpa [Operator.isRange] using hrest⟩
    · cases marks with
      | nil =>
        obtain rfl : c :: s = operand := hs
        exact absurd hc (by simp [hunmarked c rfl])
      | cons d marks =>
        obtain ⟨rfl, rfl⟩ := List.cons.inj hs
        obtain ⟨o', ho'⟩ := exists_token_of_append ho
        refine ⟨o', ho', ?_⟩
        have hrange : o'.isRange = false := by
          apply beq_eq_false_iff_ne.2
          intro heq
          subst heq
          obtain ⟨rfl, rfl⟩ := eq_nil_of_token_range ho'
          exact hx.1 (eq_range_of_token ho)
        rw [hrange]
        exact .inr ⟨o, marks, operand, by simpa using ho, rfl, hne, hunmarked, hx⟩
  · intro h
    obtain ⟨o, ho, h⟩ := h
    split at h
    · next hrange =>
      obtain rfl : o = .range := beq_iff_eq.1 hrange
      obtain ⟨rfl, rfl⟩ := eq_nil_of_token_range ho
      exact .inl ⟨rfl, s, rfl, h⟩
    · rcases h with ⟨hnil, -⟩ | ⟨o', marks, operand, ho', rfl, hrest⟩
      · simp at hnil
      · exact .inr ⟨o', c :: marks, operand, by simpa using ho', rfl, hrest⟩

theorem tokenLeads_cons_other (hc : Operator.isMark c = false) :
    TokenLeads head token (c :: s) goal ↔
      ∃ o : Operator, o.token.toList = token ∧ OperandLeads head o [c] s goal := by
  constructor
  · intro h
    rcases h with ⟨-, rest, hs, -⟩ | ⟨o, marks, operand, ho, hs, -, -, hx⟩
    · obtain ⟨rfl, rfl⟩ := List.cons.inj hs
      exact absurd hc (by decide)
    · cases marks with
      | nil =>
        obtain rfl : c :: s = operand := hs
        exact ⟨o, by simpa using ho, operandLeads_cons.1 hx⟩
      | cons d marks =>
        obtain ⟨rfl, rfl⟩ := List.cons.inj hs
        have hmark : Operator.isMark c := isMark_of_mem_token (o := o) (by simp [ho])
        exact absurd hc (by simp [hmark])
  · intro h
    obtain ⟨o, ho, hx⟩ := h
    refine .inr ⟨o, [], c :: s, by simpa using ho, rfl, by simp, ?_, operandLeads_cons.2 hx⟩
    intro d hd
    obtain rfl := Option.some.inj hd
    exact hc

theorem operatorLeads_cons : OperatorLeads head token (c :: s) goal ↔
    if c = '!' ∧ token = [] then
      head.negate = false ∧ OperatorLeads { head with negate := true } [] s goal
    else TokenLeads head token (c :: s) goal := by
  split
  · next h =>
    obtain ⟨rfl, rfl⟩ := h
    have hno : ¬TokenLeads head [] ('!' :: s) goal := by
      rw [tokenLeads_cons_other rfl]
      intro h
      obtain ⟨o, ho, -⟩ := h
      cases o <;> simp [Operator.token] at ho
    simp [OperatorLeads, hno]
  · next h =>
    constructor
    · intro h
      rcases h with ⟨rfl, -, rest, hs, -⟩ | h'
      · exact absurd ⟨(List.cons.inj hs).1, rfl⟩ h
      · exact h'
    · exact .inr

theorem pointerLeads_iff {digits : String} : PointerLeads digits.toList (c :: s) goal ↔
    ∃ next, Stage.nextPointer digits offset c = .ok next ∧ Leads next s goal := by
  rw [pointerLeads_cons, Stage.nextPointer]
  split
  · next hdigit =>
    have hc : c ≠ '}' := by
      intro heq
      subst heq
      exact absurd hdigit (by decide)
    simp [hdigit, hc, Leads]
  · next hdigit =>
    split
    · next hc => simp [hdigit, hc]
    · next hc =>
      obtain rfl : c = '}' := Decidable.not_not.1 hc
      have hindex (n : Nat) : Index digits.toList n ↔ Numeral.index? digits.toList = some n :=
        index?_iff.symm
      simp only [hdigit, hindex, Bool.false_eq_true, false_and, false_or, true_and]
      split
      · next hempty =>
        simp [String.isEmpty_iff.1 hempty, Numeral.index?, Numeral.natural?, Numeral.isDigits]
      · split
        · next index h => simp [h, Leads]
        · next h => simp [h]

theorem operatorLeads_iff {token : String} (hc : c ≠ ':') :
    OperatorLeads head token.toList (c :: s) goal ↔
      ∃ next, Stage.nextOperator head token offset c = .ok next ∧ Leads next s goal := by
  have hempty : token.isEmpty = true ↔ token.toList = [] := by simp
  rw [operatorLeads_cons, Stage.nextOperator]
  split
  · next h =>
    rw [if_pos (by simpa [hempty] using h)]
    split <;> simp_all [Leads]
  · next h =>
    rw [if_neg (by simpa [hempty] using h)]
    split
    · next hmark =>
      have htoken (o : Operator) : o.token.toList = token.toList ++ [c] ↔
          Operator.ofToken? (token.push c) = some o := by
        rw [ofToken?_eq_some_iff, ← String.toList_inj, String.toList_push]
      simp only [tokenLeads_cons_mark hmark, htoken]
      split
      · next h => simp [h]
      · next o h => split <;> simp_all [Leads, OperatorLeads]
    · next hmark =>
      have htoken (o : Operator) : o.token.toList = token.toList ↔
          Operator.ofToken? token = some o := by
        rw [ofToken?_eq_some_iff, String.toList_inj]
      simp only [tokenLeads_cons_other (Bool.not_eq_true _ ▸ hmark), htoken]
      split
      · next h => simp [h]
      · next o h => simp [h, Stage.startOperand, hc, Leads]

theorem lowLeads_iff {low : String} (hc : c ≠ ':') : LowLeads head low.toList (c :: s) goal ↔
    ∃ next, Stage.nextRangeLow head low offset c = .ok next ∧ Leads next s goal := by
  rw [lowLeads_cons, Stage.nextRangeLow]
  split
  · next hdigit =>
    have hc : c ≠ '.' := by
      intro heq
      subst heq
      exact absurd hdigit (by decide)
    simp [hdigit, hc, Leads]
  · next hdigit =>
    by_cases hpoint : c = '.'
    · subst hpoint
      by_cases hlow : low.isEmpty = true
      · obtain rfl : low = "" := String.isEmpty_iff.1 hlow
        simp [Stage.badRange]
      · have hne : low ≠ "" := by simpa using hlow
        simp [hlow, hne, Leads]
    · simp [hdigit, hpoint, hc, Stage.badRange]

theorem highLeads_iff {low high : String} (hc : c ≠ ':') :
    HighLeads head low.toList high.toList (c :: s) goal ↔
      ∃ next, Stage.nextRangeHigh head low high offset c = .ok next ∧ Leads next s goal := by
  rw [highLeads_cons, Stage.nextRangeHigh]
  split
  · next hdigit => simp [hdigit, Leads]
  · next hdigit =>
    split
    · simp [hdigit, Stage.badRange]
    · simp [hdigit, Stage.badRange]

/-- What a stage expects of a text is what the next stage expects of its rest. -/
theorem leads_cons {stage : Stage} (hstage : Ready stage) (hc : c ≠ ':') (offset : Nat) :
    Leads stage (c :: s) goal ↔
      ∃ next, stage.next offset c = .ok next ∧ Leads next s goal := by
  cases stage with
  | target =>
    simp only [Leads, Stage.next]
    split
    · next hbrace => simp [hbrace]
    · next hbrace =>
      split
      · next hmark => simp [hmark]
      · next hmark => simp [hbrace, hmark]
  | pointer digits =>
    simp only [Leads, Stage.next]
    exact pointerLeads_iff
  | mark => simp [Leads, Stage.next, hc]
  | operator head token =>
    simp only [Leads, Stage.next]
    exact operatorLeads_iff hc
  | rangeLow head low =>
    simp only [Leads, Stage.next]
    exact lowLeads_iff hc
  | rangeDot head low =>
    simp only [Leads, Stage.next, Stage.nextRangeDot]
    split
    · next hpoint => simp [hpoint]
    · next hpoint => simp [hpoint, Stage.badRange]
  | rangeHigh head low high =>
    simp only [Leads, Stage.next]
    exact highLeads_iff hc
  | operand head o start text =>
    simp [Leads, Stage.next, Stage.nextOperand, hc, operandLeads_cons]
  | result | fallback => cases hstage

theorem leads_nil {stage : Stage} (hstage : Ready stage) (offset : Nat) :
    Leads stage [] goal ↔ stage.next offset ':' = .ok goal := by
  cases stage with
  | target => simp [Leads, Stage.next]
  | pointer digits => simp [Leads, PointerLeads, Stage.next, Stage.nextPointer]
  | mark => simp [Leads, Stage.next, eq_comm]
  | operator head token =>
    have hleads : ¬Leads (.operator head token) [] goal := by
      intro h
      rcases h with ⟨-, -, rest, hs, -⟩ | ⟨-, rest, hs, -⟩ | ⟨o, marks, operand, -, hs, hne, -⟩
      · cases hs
      · cases hs
      · exact hne (List.append_eq_nil_iff.1 hs.symm).2
    simp only [hleads, Stage.next, Stage.nextOperator]
    cases Operator.ofToken? token <;> simp [Operator.isMark, Stage.startOperand]
  | rangeLow head low =>
    have hleads : ¬Leads (.rangeLow head low) [] goal := by
      intro h
      obtain ⟨more, high, hs, -⟩ := h
      simp at hs
    simp only [hleads, Stage.next, Stage.nextRangeLow]
    cases low.isEmpty <;> simp [Stage.badRange]
  | rangeDot head low => simp [Leads, Stage.next, Stage.nextRangeDot, Stage.badRange]
  | rangeHigh head low high =>
    simp only [Leads, HighLeads, Stage.next, Stage.nextRangeHigh]
    have hcolon : ':'.isDigit = false := rfl
    by_cases hhigh : high = ""
    · simp [hhigh, hcolon, Stage.badRange]
    · simp only [hcolon, hhigh, List.append_nil, String.isEmpty_iff, if_false, reduceCtorEq]
      constructor
      · intro h
        obtain ⟨-, -, rfl⟩ := h
        rfl
      · intro h
        obtain rfl := Except.ok.inj h
        exact ⟨by simp, by simpa using hhigh, rfl⟩
  | operand head o start text =>
    have hread (x : Operand) : OperandText text.toList x ↔
        Operand.read start text.toList = .ok x := operandRead_iff.symm
    have ho : o ≠ .range := hstage
    simp only [Leads, OperandLeads, Stage.next, Stage.nextOperand, List.append_nil, hread]
    cases Operand.read start text.toList <;> simp [Except.map, ho, eq_comm]
  | result | fallback => cases hstage

end Phrasing.Grammar
