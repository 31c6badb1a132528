import Phrasing.Condition.Pending
import Phrasing.Proofs.Outcome

/-!
What each stage can make of a character, said once for all that is proved of readers.
-/

namespace Phrasing.Grammar

open Outcome

variable {head : Head} {o : Operator} {c : Char} {offset start : Nat} {stage next : Stage}

theorem ofToken?_eq_some_iff {t : String} : Operator.ofToken? t = some o ↔ o.token = t := by
  constructor
  · intro h
    simpa using List.find?_some h
  · intro heq
    subst heq
    exact Operator.ofToken?_token o

theorem eq_of_token_eq {o o' : Operator} (h : o.token = o'.token) : o = o' :=
  Option.some.inj ((ofToken?_eq_some_iff.2 h).symm.trans (Operator.ofToken?_token o'))

/-- The characters that a stage takes, and the stage after each of them. -/
inductive Step (offset : Nat) : Stage → Char → Stage → Prop
  | brace : Step offset .target '{' (.pointer "")
  | star : Step offset .target '*' .mark
  | fallback : Step offset .mark ':' (.fallback "")
  | digit {digits : String} {c : Char} (hc : c.isDigit) :
      Step offset (.pointer digits) c (.pointer (digits.push c))
  | target {digits : String} {n : Nat} (hn : Numeral.index? digits.toList = some n) :
      Step offset (.pointer digits) '}' (.operator ⟨n, false⟩ "")
  | negate {head : Head} (hhead : head.negate = false) :
      Step offset (.operator head "") '!' (.operator { head with negate := true } "")
  | mark {head : Head} {token : String} {c : Char} {o : Operator} (ho : o.token = token.push c)
      (hrange : o.isRange = false) :
      Step offset (.operator head token) c (.operator head (token.push c))
  | range {head : Head} {token : String} {c : Char} (ho : Operator.range.token = token.push c) :
      Step offset (.operator head token) c (.rangeLow head "")
  | operand {head : Head} {o : Operator} {c : Char} (hmark : Operator.isMark c = false)
      (hc : c ≠ ':') :
      Step offset (.operator head o.token) c (.operand head o offset (String.singleton c))
  | low {head : Head} {low : String} {c : Char} (hc : c.isDigit) :
      Step offset (.rangeLow head low) c (.rangeLow head (low.push c))
  | firstPoint {head : Head} {low : String} (hlow : low.isEmpty = false) :
      Step offset (.rangeLow head low) '.' (.rangeDot head low)
  | secondPoint {head : Head} {low : String} :
      Step offset (.rangeDot head low) '.' (.rangeHigh head low "")
  | high {head : Head} {low high : String} {c : Char} (hc : c.isDigit) :
      Step offset (.rangeHigh head low high) c (.rangeHigh head low (high.push c))
  | bounds {head : Head} {low high : String} (hhigh : high.isEmpty = false) :
      Step offset (.rangeHigh head low high) ':' (.result ⟨head.target, .range, head.negate,
        .range (Stage.bound low) (Stage.bound high)⟩ "")
  | text {head : Head} {o : Operator} {start : Nat} {text : String} {c : Char} (hc : c ≠ ':') :
      Step offset (.operand head o start text) c (.operand head o start (text.push c))
  | comparison {head : Head} {o : Operator} {start : Nat} {text : String} {x : Operand}
      (hx : Operand.read start text.toList = .ok x) :
      Step offset (.operand head o start text) ':' (.result ⟨head.target, o, head.negate, x⟩ "")
  | result {comparison : Comparison} {text : String} {c : Char} :
      Step offset (.result comparison text) c (.result comparison (text.push c))
  | rest {text : String} {c : Char} :
      Step offset (.fallback text) c (.fallback (text.push c))

theorem step_of_nextPointer {digits : String}
    (h : Stage.nextPointer digits offset c = .ok next) : Step offset (.pointer digits) c next := by
  unfold Stage.nextPointer at h
  split at h
  · next hdigit =>
    cases h
    exact .digit hdigit
  · split at h
    · cases h
    · next hclose =>
      obtain rfl : c = '}' := Decidable.not_not.1 hclose
      split at h
      · cases h
      · split at h
        · next hn =>
          cases h
          exact .target hn
        · cases h

theorem step_of_nextOperator {token : String}
    (h : Stage.nextOperator head token offset c = .ok next) :
    Step offset (.operator head token) c next := by
  unfold Stage.nextOperator at h
  split at h
  · next hbang =>
    obtain ⟨rfl, hempty⟩ := hbang
    obtain rfl : token = "" := String.isEmpty_iff.1 hempty
    split at h
    · cases h
    · next hnegate =>
      cases h
      exact .negate (Bool.eq_false_iff.2 hnegate)
  · split at h
    · split at h
      · cases h
      · next o ho =>
        cases h
        have ho := ofToken?_eq_some_iff.1 ho
        split
        · next hrange =>
          obtain rfl : o = .range := beq_iff_eq.1 hrange
          exact .range ho
        · next hrange => exact .mark ho (Bool.eq_false_iff.2 hrange)
    · next hmark =>
      split at h
      · cases h
      · next o ho =>
        obtain rfl := ofToken?_eq_some_iff.1 ho
        unfold Stage.startOperand at h
        split at h
        · cases h
        · next hcolon =>
          cases h
          exact .operand (Bool.eq_false_iff.2 hmark) hcolon

theorem step_of_nextRangeLow {low : String} (h : Stage.nextRangeLow head low offset c = .ok next) :
    Step offset (.rangeLow head low) c next := by
  unfold Stage.nextRangeLow at h
  split at h
  · next hdigit =>
    cases h
    exact .low hdigit
  · split at h
    · cases h
    · split at h
      · cases h
      · next hlow =>
        split at h
        · next hpoint =>
          cases h
          rw [hpoint]
          exact .firstPoint (Bool.eq_false_iff.2 hlow)
        · cases h

theorem step_of_nextRangeHigh {low high : String}
    (h : Stage.nextRangeHigh head low high offset c = .ok next) :
    Step offset (.rangeHigh head low high) c next := by
  unfold Stage.nextRangeHigh at h
  split at h
  · next hdigit =>
    cases h
    exact .high hdigit
  · split at h
    · cases h
    · split at h
      · cases h
      · next hcolon =>
        split at h
        · cases h
        · next hhigh =>
          cases h
          obtain rfl : c = ':' := Decidable.not_not.1 hcolon
          exact .bounds (Bool.eq_false_iff.2 hhigh)

theorem step_of_next (h : stage.next offset c = .ok next) : Step offset stage c next := by
  cases stage with
  | target =>
    simp only [Stage.next] at h
    split at h
    · next hbrace =>
      cases h
      rw [hbrace]
      exact .brace
    · split at h
      · next hstar =>
        cases h
        rw [hstar]
        exact .star
      · cases h
  | mark =>
    simp only [Stage.next] at h
    split at h
    · next hcolon =>
      cases h
      rw [hcolon]
      exact .fallback
    · cases h
  | pointer digits => exact step_of_nextPointer h
  | operator head token => exact step_of_nextOperator h
  | rangeLow head low => exact step_of_nextRangeLow h
  | rangeDot head low =>
    simp only [Stage.next, Stage.nextRangeDot] at h
    split at h
    · next hpoint =>
      cases h
      rw [hpoint]
      exact .secondPoint
    · cases h
  | rangeHigh head low high => exact step_of_nextRangeHigh h
  | operand head o start text =>
    simp only [Stage.next, Stage.nextOperand] at h
    split at h
    · next hcolon =>
      cases h
      exact .text hcolon
    · next hcolon =>
      obtain rfl : c = ':' := Decidable.not_not.1 hcolon
      obtain ⟨x, hx, rfl⟩ := map_eq_ok_iff.1 h
      exact .comparison hx
  | result =>
    cases h
    exact .result
  | fallback =>
    cases h
    exact .rest

/-- A stage before the colon that a reader can reach. -/
def Ready : Stage → Prop
  | .operator _ token => token ≠ "~"
  | .operand _ o _ _ => o ≠ .range
  | .result .. | .fallback _ => False
  | _ => True

theorem Ready.isVerbatim (h : Ready stage) : stage.isVerbatim = false := by
  cases stage with
  | result | fallback => cases h
  | _ => rfl

theorem Step.ready (h : Step offset stage c next) (hstage : Ready stage) (hc : c ≠ ':') :
    Ready next := by
  cases h with
  | target | negate => exact (by decide : "" ≠ "~")
  | @mark head token c o ho hrange =>
    intro hpush
    have htoken : o.token = Operator.range.token := ho.trans hpush
    rw [eq_of_token_eq htoken] at hrange
    cases hrange
  | operand =>
    rintro rfl
    exact hstage rfl
  | fallback | bounds | comparison => exact absurd rfl hc
  | text | result | rest => exact hstage
  | _ => trivial

end Phrasing.Grammar
