import Phrasing.Proofs.Grammar.Body
import Phrasing.Template.Source

/-!
A text between two quotes is accepted just when the grammar derives it with at least one branch.
-/

namespace Phrasing.Grammar

open Outcome

variable {s : List Char} {comparison : Comparison} {branches : List Branch} {fallback : String}

theorem OperandText.isRange {x : Operand} (h : OperandText s x) : x.isRange = false := by
  cases h <;> rfl

theorem OperandText.isMatched {x : Operand} {o : Operator} (h : OperandText s x) (ho : o ≠ .range)
    (target : Nat) (negate : Bool) : (Comparison.mk target o negate x).isMatched := by
  simp [Comparison.isMatched, Operator.isRange, h.isRange, ho]

theorem ComparisonText.isMatched (h : ComparisonText s comparison) : comparison.isMatched := by
  cases h with
  | plain htarget ho hne hcolon hunmarked hx => exact hx.isMatched ho _ _
  | range => rfl

theorem not_isBlankText_trim (h : Text.trim s ≠ []) :
    Text.isBlankText (String.ofList (Text.trim s)) = false := by
  rw [Bool.eq_false_iff, ne_eq, Text.isBlankText_ofList, (Text.trimmed_trim s).trim_eq]
  exact h

theorem Body.checkBranches (h : Body s branches fallback) (index : Nat) :
    Condition.checkBranches index branches = .ok () := by
  induction h generalizing index with
  | fallback => rfl
  | branch hhead hresult _ ih =>
    rw [Condition.checkBranches, not_isBlankText_trim hresult.2, hhead.isMatched]
    exact ih (index + 1)

theorem Body.not_isBlankText (h : Body s branches fallback) :
    Text.isBlankText fallback = false := by
  induction h with
  | fallback _ hresult => exact not_isBlankText_trim hresult.2
  | branch _ _ _ ih => exact ih

theorem Body.check_eq_ok_iff (h : Body s branches fallback) (lead : String) :
    Condition.check ⟨lead, branches, some fallback⟩ = .ok () ↔ branches ≠ [] := by
  unfold Condition.check
  split
  · next hempty => simpa using hempty
  · next hempty =>
    simp only [h.not_isBlankText, h.checkBranches]
    simpa using hempty

theorem Body.ne_nil (h : Body s branches fallback) : s ≠ [] := by
  cases h <;> simp

variable [Hasher]

/-- A condition with the stamp of its content. -/
def stamped (c : Condition) : Stamped := ⟨c, c.fingerprint⟩

theorem validate_new (c : Condition) : (Stamped.new c).validate =
    match c.check with
    | .ok () => .ok (stamped c)
    | .error flaw => .error (.unsound flaw) := by
  have hstamp : (c.fingerprint != 0 && 0 == c.fingerprint) = false := by
    cases hzero : c.fingerprint <;> simp
  simp only [Stamped.validate, Stamped.new, hstamp]
  rfl

/-- A condition between quotes is read and found sound just when the grammar derives it with a
branch, and it then has the stamp of its content. -/
theorem readQuoted_iff {lead : String} {offset : Nat} {t : Stamped} :
    Template.readQuoted lead offset s = .ok t ↔ ∃ branches fallback, branches ≠ [] ∧
      Body s branches fallback ∧ t = stamped ⟨lead, branches, some fallback⟩ := by
  constructor
  · intro h
    unfold Template.readQuoted at h
    split at h
    · cases h
    · obtain ⟨⟨lead', branches, fallback?⟩, hread, hvalid⟩ := bind_eq_ok_iff.1 h
      obtain ⟨rfl, fallback, rfl, hbody⟩ := read_iff_body.1 hread
      rw [validate_new] at hvalid
      split at hvalid
      · next hcheck =>
        obtain rfl := Except.ok.inj hvalid
        exact ⟨branches, fallback, (hbody.check_eq_ok_iff _).1 hcheck, hbody, rfl⟩
      · cases hvalid
  · intro h
    obtain ⟨branches, fallback, hne, hbody, rfl⟩ := h
    have hread : Condition.read lead (offset + 1) s = .ok ⟨lead, branches, some fallback⟩ :=
      read_iff_body.2 ⟨rfl, fallback, rfl, hbody⟩
    rw [Template.readQuoted, if_neg (by simpa using hbody.ne_nil), hread]
    apply (validate_new _).trans
    rw [(hbody.check_eq_ok_iff lead).2 hne]

/-- A text between two quotes, wherever they stand, is read as a condition with branches just when
the grammar derives it; the condition has the branches and the fallback of the derivation, and it
is the one that the template keeps. -/
theorem read_iff_derived (lead : String) (offset : Nat) (body : List Char) (c : Condition) :
    ((Condition.read lead (offset + 1) body = .ok c ∧ c.branches ≠ []) ↔
      c.lead = lead ∧ c.branches ≠ [] ∧
        ∃ fallback, c.fallback = some fallback ∧ Body body c.branches fallback) ∧
    ((Condition.read lead (offset + 1) body = .ok c ∧ c.branches ≠ []) ↔
      ∃ t, Template.readQuoted lead offset body = .ok t ∧ t.condition = c) := by
  constructor
  · rw [read_iff_body, and_assoc, and_comm (a := ∃ fallback, _)]
  · constructor
    · intro h
      obtain ⟨hread, hne⟩ := h
      obtain ⟨hlead, fallback, hfallback, hbody⟩ := read_iff_body.1 hread
      refine ⟨stamped c, readQuoted_iff.2 ⟨c.branches, fallback, hne, hbody, ?_⟩, rfl⟩
      rw [← hlead, ← hfallback]
    · intro h
      obtain ⟨t, hquoted, rfl⟩ := h
      obtain ⟨branches, fallback, hne, hbody, rfl⟩ := readQuoted_iff.1 hquoted
      exact ⟨read_iff_body.2 ⟨rfl, fallback, rfl, hbody⟩, hne⟩

end Phrasing.Grammar
