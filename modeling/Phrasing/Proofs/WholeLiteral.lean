import Phrasing.Proofs.Check
import Phrasing.Proofs.Comparison
import Phrasing.Proofs.DoubleOrder
import Phrasing.Proofs.Placeholder
import Phrasing.Proofs.Printing.BodyText
import Phrasing.Proofs.Rendering

/-!
Whole numbers as arguments and as literals. A literal within 64 bits with a sign stands for the
number itself, and a greater one for a float.
-/

namespace Phrasing

open Outcome

namespace Grammar

variable {s : List Char} {n i : Int}

theorem toList_repr (n : Int) : n.repr.toList = (Operand.integer n).write := by
  cases n with
  | ofNat n => simp [Int.repr, Operand.write, Layout.sign, Nat.repr]
  | negSucc n => simp [Int.repr, Operand.write, Layout.sign, Nat.repr]

theorem Signed.unique (h : Signed s n) (h' : Signed s i) : n = i :=
  Option.some.inj ((integer?_iff.2 h).symm.trans (integer?_iff.2 h'))

theorem Signed.exists_real (h : Signed s n) : ∃ x, Real s x := by
  obtain ⟨hsign, hdigits⟩ := h
  exact ⟨_, .mk hsign hdigits.unsigned⟩

/-- What is written of a whole number is read as that number, if a literal can hold it. -/
theorem integer_write (hlow : -0x8000000000000000 ≤ n) (hhigh : n < 0x8000000000000000) :
    OperandText (Operand.integer n).write (.integer n) :=
  .integer ⟨signed_write n, by omega, by omega⟩

/-- What is written of a whole number is read as a float, if no literal can hold the number. -/
theorem float_write (h : 0x8000000000000000 ≤ n) :
    ∃ x, OperandText (Operand.integer n).write (.float x) := by
  obtain ⟨x, hx⟩ := (signed_write n).exists_real
  refine ⟨x, .float (fun hliteral ↦ ?_) hx⟩
  obtain ⟨i, hsigned, -, hlimit⟩ := hliteral
  rw [← (signed_write n).unique hsigned] at hlimit
  omega

theorem Signed.comparison {x : Operand} (h : Signed s n) (hx : OperandText s x) :
    ComparisonText ('{' :: '0' :: '}' :: '=' :: s) ⟨0, .equal, false, x⟩ := by
  have hne : s ≠ [] := by
    obtain ⟨-, hdigits⟩ := h
    simp [hdigits.1.1]
  have hcolon : ':' ∉ s := fun hmem ↦ absurd (h.numeric _ hmem) (by decide)
  exact @ComparisonText.plain ['0'] s 0 false .equal x ⟨whole_toDigits 0, by decide⟩ (by simp) hne
    hcolon (unmarked_of_numeric h.numeric) hx

end Grammar

namespace Comparison

/-- A whole number equals itself, also where it is rounded to compare it. -/
theorem evaluate_integer (n : Int) :
    evaluate .standard [.integer n] ⟨0, .equal, false, .integer n⟩ = .ok true := by
  change Except.ok (false != (Binary64.ofInt n).eq (.ofInt n)) = .ok true
  rw [Grammar.eq_self (Binary64.isNan_ofInt n)]
  rfl

/-- A whole number and a float are of different kinds. -/
theorem evaluate_float (n : Int) (x : Binary64) :
    evaluate .standard [.integer n] ⟨0, .equal, false, .float x⟩ =
      .error (.mismatch .integer .float) := rfl

end Comparison

namespace Source

open Grammar

/-- A text that can be a result and is rendered as it is: it is not blank, has no blanks at its ends
and no characters that mean something in a template. -/
structure IsPlainResult (s : String) : Prop where
  nonblank : Text.isBlankText s = false
  trimmed : Text.trimmed s = s
  unmarked : ∀ c ∈ s.toList, c ∉ ['\'', '|', '{', '}']

variable {s : String} {head : List Char} {c : Comparison} {a b : String}

theorem IsPlainResult.resultText (h : IsPlainResult s) : ResultText s.toList := by
  refine ⟨fun hmem ↦ h.unmarked _ hmem (by simp), fun hnil ↦ ?_⟩
  rw [Text.trim_eq_nil_iff] at hnil
  cases h.nonblank.symm.trans hnil

theorem IsPlainResult.substitute (h : IsPlainResult s) (args : List Value) :
    substitute s args = .ok s :=
  substitute_of_not_mem fun hmem ↦ h.unmarked _ hmem (by simp)

/-- A condition with one branch, between quotes. -/
def single (head : List Char) (a b : String) : List Char :=
  '\'' :: (head ++ ':' :: (a.toList ++ '|' :: '*' :: ':' :: b.toList) ++ ['\''])

theorem body_single (hhead : ComparisonText (squeeze head) c) (ha : IsPlainResult a)
    (hb : IsPlainResult b) :
    Body (head ++ ':' :: (a.toList ++ '|' :: '*' :: ':' :: b.toList)) [⟨c, a⟩] b := by
  have hmark : squeeze ['*'] = ['*'] := by decide
  have hbody := Body.branch hhead ha.resultText (.fallback hmark hb.resultText)
  have hatrim : String.ofList (Text.trim a.toList) = a := ha.trimmed
  have hbtrim : String.ofList (Text.trim b.toList) = b := hb.trimmed
  rw [hatrim, hbtrim] at hbody
  exact hbody

variable [Hasher]

theorem select_single (options : Options) (args : List Value) {c : Condition} {b : Branch}
    (hcheck : c.check = .ok ()) (hbranches : c.branches = [b]) :
    (stamped c).select options args =
      (b.evaluate options args).map fun holds ↦ if holds then .branch 0 else .fallback := by
  have hselect : (stamped c).select options args = Branch.choose options args 0 c.branches :=
    Stamped.select_of_check hcheck
  rw [hselect, hbranches, Branch.choose_singleton]

theorem compile_single (hhead : ComparisonText (squeeze head) c) (hquote : '\'' ∉ head)
    (ha : IsPlainResult a) (hb : IsPlainResult b) :
    ∃ t, compile (String.ofList (single head a b)) = .ok t ∧
      t.conditions = [stamped ⟨"", [⟨c, a⟩], some b⟩] ∧ t.tail = "" := by
  have haquote : '\'' ∉ a.toList := fun hmem ↦ ha.unmarked _ hmem (by simp)
  have hbquote : '\'' ∉ b.toList := fun hmem ↦ hb.unmarked _ hmem (by simp)
  have hbody : '\'' ∉ head ++ ':' :: (a.toList ++ '|' :: '*' :: ':' :: b.toList) := by
    simp [hquote, haquote, hbquote]
  have hsplit : (single head a b).splitOn '\'' =
      [[], head ++ ':' :: (a.toList ++ '|' :: '*' :: ':' :: b.toList), []] := by
    have hempty : '\'' ∉ ([] : List Char) := by simp
    rw [single, ← List.nil_append ('\'' :: _), List.splitOn_append_cons_self_of_not_mem hempty,
      List.splitOn_append_cons_self_of_not_mem hbody, List.splitOn_nil]
  have hparts := Parts.condition [] (by simp) (body_single hhead ha hb) (.tail [])
  rw [← hsplit, ← String.toList_ofList (l := single head a b)] at hparts
  exact ⟨_, (compile_eq_map _).trans (congrArg _ (readSource_iff.2 hparts)), rfl, rfl⟩

/-- A condition with one branch is replaced by the one result or the other. -/
theorem format_single (hhead : ComparisonText (squeeze head) c) (hquote : '\'' ∉ head)
    (ha : IsPlainResult a) (hb : IsPlainResult b) (args : List Value) :
    format (String.ofList (single head a b)) args =
      (c.evaluate .standard args).map fun holds ↦ if holds then a else b := by
  obtain ⟨t, ht, hconditions, htail⟩ := compile_single hhead hquote ha hb
  have hcheck : Condition.check ⟨"", [⟨c, a⟩], some b⟩ = .ok () :=
    ((body_single hhead ha hb).check_eq_ok_iff "").2 (by simp)
  rw [format_of_compile ht, hconditions, htail, selectAll_cons, select_single _ _ hcheck rfl]
  have hresult (result : String) : "" ++ result ++ "" ++ "" = result := by simp
  cases c.evaluate .standard args with
  | error failure => rfl
  | ok holds =>
    cases holds with
    | true =>
      change substitute ("" ++ a ++ "" ++ "") args = .ok a
      rw [hresult, ha.substitute]
    | false =>
      change substitute ("" ++ b ++ "" ++ "") args = .ok b
      rw [hresult, hb.substitute]

/-- Whether a condition that compares an argument with a number written out chooses its branch is
a matter of what the number is read as. -/
theorem format_literal {n : Int} {x : Operand} (hx : OperandText (Operand.integer n).write x)
    (ha : IsPlainResult a) (hb : IsPlainResult b) (args : List Value) :
    format ("'{0}=" ++ toString n ++ ":" ++ a ++ "|*:" ++ b ++ "'") args =
      (Comparison.evaluate .standard args ⟨0, .equal, false, x⟩).map
        fun holds ↦ if holds then a else b := by
  have hprinted : ∀ c ∈ '{' :: '0' :: '}' :: '=' :: (Operand.integer n).write, isPrinted c := by
    simp only [List.forall_mem_cons]
    refine ⟨rfl, rfl, rfl, rfl, fun c hc ↦ ?_⟩
    exact isPrinted_of_isNumeric ((signed_write n).numeric c hc)
  have hsqueeze := squeeze_eq_self fun c hc ↦ (not_isBlank_of_isPrinted (hprinted c hc)).1
  have hquote (hmem) := (not_isBlank_of_isPrinted (hprinted '\'' hmem)).2.2 rfl
  have hhead := (signed_write n).comparison hx
  rw [← hsqueeze] at hhead
  rw [← format_single hhead hquote ha hb args]
  congr 1
  rw [← String.toList_inj]
  simp [single, toList_repr]

/-- A whole number from `-2 ^ 63` to below `2 ^ 63` equals what is written of it. From there on
what is written is read as a float, which is of another kind. -/
theorem format_own_literal {n : Int} (hlow : -0x8000000000000000 ≤ n) (ha : IsPlainResult a)
    (hb : IsPlainResult b) :
    format ("'{0}=" ++ toString n ++ ":" ++ a ++ "|*:" ++ b ++ "'") [.integer n] =
      if n < 0x8000000000000000 then .ok a else .error (.mismatch .integer .float) := by
  split
  · next hhigh =>
    rw [format_literal (integer_write hlow hhigh) ha hb, Comparison.evaluate_integer]
    rfl
  · next hhigh =>
    obtain ⟨x, hx⟩ := float_write (Int.not_lt.1 hhigh)
    rw [format_literal hx ha hb, Comparison.evaluate_float]
    rfl

omit [Hasher] in
theorem format_own_literal_least :
    -0x8000000000000000 ≤ (-9223372036854775808 : Int) ∧
      IsPlainResult "least" ∧ IsPlainResult "other" ∧
      @format Digest.hasher "'{0}=-9223372036854775808:least|*:other'"
        [.integer (-9223372036854775808)] = .ok "least" := by
  let _ := Digest.hasher
  have hlow : -0x8000000000000000 ≤ (-9223372036854775808 : Int) := by decide
  have hleast : IsPlainResult "least" := ⟨by decide, by decide, by simp⟩
  have hother : IsPlainResult "other" := ⟨by decide, by decide, by simp⟩
  have hsource : "'{0}=-9223372036854775808:least|*:other'" =
      "'{0}=" ++ toString (-9223372036854775808 : Int) ++ ":" ++ "least" ++ "|*:" ++ "other" ++ "'" := by
    decide +kernel
  refine ⟨hlow, hleast, hother, ?_⟩
  rw [hsource, format_own_literal hlow hleast hother]
  rfl

omit [Hasher] in
/-- The least whole number that does not equal its own literal. -/
theorem format_greater_literal :
    let n : Int := 9223372036854775808
    n ≤ 0xffffffffffffffff ∧ -0x8000000000000000 ≤ n ∧
      IsPlainResult "A" ∧ IsPlainResult "B" ∧ "A" ≠ "B" ∧
      @format Digest.hasher ("'{0}=" ++ toString n ++ ":" ++ "A" ++ "|*:" ++ "B" ++ "'")
        [.integer n] ≠ .ok "A" := by
  refine ⟨by decide, by decide, ⟨by decide, by decide, by simp⟩, ⟨by decide, by decide, by simp⟩,
    by decide, fun hformat ↦ ?_⟩
  have hnone := congrArg Except.toOption hformat
  revert hnone
  decide +kernel

end Source

end Phrasing
