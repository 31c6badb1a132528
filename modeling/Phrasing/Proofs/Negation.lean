import Phrasing.Condition.Digest
import Phrasing.Proofs.Check
import Phrasing.Proofs.Selection

/-!
Negation exchanges outcomes. If the last branch of a condition is negated and exchanges its result
with the fallback, then the other one of the two is selected, and the text is the same.
-/

namespace Phrasing

open Outcome

variable {options : Options} {args : List Value}

/-- A negated comparison fails where the comparison does, and holds just where it does not. -/
theorem Comparison.evaluate_negated (c : Comparison) :
    c.negated.evaluate options args = (c.evaluate options args).map (!·) := by
  have hmatched : c.negated.matched options args = c.matched options args := rfl
  rw [evaluate, evaluate, hmatched, map_map]
  congr 1
  funext holds
  cases hnegate : c.negate <;> cases holds <;> simp [negated, hnegate]

/-- The other one of the last branch and the fallback; earlier branches stay. -/
def Selection.exchanged (last : Nat) : Selection → Selection
  | branch k => if k = last then fallback else branch k
  | fallback => branch last

theorem Selection.exchanged_exchanged (last : Nat) (selection : Selection) :
    (selection.exchanged last).exchanged last = selection := by
  cases selection with
  | branch k =>
    by_cases hk : k = last
    · simp [exchanged, hk]
    · simp [exchanged, hk]
  | fallback => simp [exchanged]

theorem Selection.exchanged_eq_iff {last : Nat} {selection selection' : Selection} :
    selection.exchanged last = selection' ↔ selection = selection'.exchanged last := by
  constructor
  · rintro rfl
    exact (exchanged_exchanged last selection).symm
  · rintro rfl
    exact exchanged_exchanged last selection'

namespace Branch

/-- The branch that holds just where this one does not, with a result of its own. -/
def opposed (b : Branch) (result : String) : Branch := { b.negated with result }

theorem negated_negated (b : Branch) : b.negated.negated = b := by
  simp [negated, Comparison.negated]

theorem opposed_opposed (b : Branch) (result : String) :
    (b.opposed result).opposed b.result = b := negated_negated b

theorem evaluate_opposed (b : Branch) (result : String) :
    (b.opposed result).evaluate options args = (b.evaluate options args).map (!·) :=
  b.toComparison.evaluate_negated

theorem choose_opposed (before : List Branch) (b : Branch) (result : String) (index : Nat) :
    choose options args index (before ++ [b.opposed result]) =
      (choose options args index (before ++ [b])).map
        (Selection.exchanged (index + before.length)) := by
  induction before generalizing index with
  | nil =>
    rw [List.nil_append, List.nil_append, choose_singleton, choose_singleton, evaluate_opposed,
      map_map, map_map]
    congr 1
    funext holds
    cases holds <;> simp [Selection.exchanged]
  | cons a before ih =>
    rw [List.cons_append, List.cons_append, choose, choose]
    cases a.evaluate options args with
    | error => rfl
    | ok holds =>
      cases holds with
      | false =>
        have hlast : index + (a :: before).length = index + 1 + before.length := by
          rw [List.length_cons]
          omega
        rw [hlast]
        exact ih (index + 1)
      | true =>
        have hne : index ≠ index + (a :: before).length := by
          rw [List.length_cons]
          omega
        change Except.ok (Selection.branch index) = .ok (if _ then _ else _)
        rw [if_neg hne]

end Branch

namespace Condition

/-- The condition with its last branch negated, which exchanges its result with the fallback. -/
def turned (c : Condition) : Condition :=
  match c.branches.getLast?, c.fallback with
  | some b, some result =>
    { c with branches := c.branches.dropLast ++ [b.opposed result], fallback := some b.result }
  | _, _ => c

variable {c : Condition} {lead result : String} {before : List Branch} {b : Branch}

theorem turned_concat : turned ⟨lead, before ++ [b], some result⟩ =
    ⟨lead, before ++ [b.opposed result], some b.result⟩ := by
  simp [turned]

theorem exists_concat (h : c.check = .ok ()) :
    ∃ before b result, c = ⟨c.lead, before ++ [b], some result⟩ := by
  obtain ⟨hne, ⟨result, hfallback, -⟩, -⟩ := check_eq_ok_iff.1 h
  refine ⟨c.branches.dropLast, c.branches.getLast hne, result, ?_⟩
  rw [List.dropLast_concat_getLast hne, ← hfallback]

theorem turned_turned (h : c.check = .ok ()) : c.turned.turned = c := by
  obtain ⟨before, b, result, hc⟩ := exists_concat h
  rw [hc, turned_concat, turned_concat, Branch.opposed_opposed]
  rfl

theorem check_turned (h : c.check = .ok ()) : c.turned.check = .ok () := by
  obtain ⟨before, b, result, hc⟩ := exists_concat h
  rw [hc, check_eq_ok_iff] at h
  obtain ⟨-, ⟨result', hfallback, hblank⟩, hbranches⟩ := h
  obtain rfl : result = result' := Option.some.inj hfallback
  obtain ⟨hbefore, hlast⟩ := List.forall_mem_append.1 hbranches
  obtain ⟨hresult, hmatched⟩ := hlast b (by simp)
  rw [hc, turned_concat, check_eq_ok_iff]
  refine ⟨by simp, ⟨b.result, rfl, hresult⟩, List.forall_mem_append.2 ⟨hbefore, ?_⟩⟩
  simp only [List.mem_singleton, forall_eq]
  exact ⟨hblank, hmatched⟩

/-- The result of a selection is the result of the exchanged selection after the exchange. -/
theorem output_turned (h : c.check = .ok ()) (selection : Selection) :
    c.turned.output (selection.exchanged (c.branches.length - 1)) = c.output selection := by
  obtain ⟨before, b, result, hc⟩ := exists_concat h
  have hlast : (before ++ [b]).length - 1 = before.length := by simp
  rw [hc, turned_concat]
  dsimp only
  rw [hlast]
  cases selection with
  | fallback => simp [Selection.exchanged, output, result?, Branch.opposed]
  | branch k =>
    rcases Nat.lt_trichotomy k before.length with hlt | rfl | hgt
    · have hne : k ≠ before.length := Nat.ne_of_lt hlt
      simp [Selection.exchanged, output, result?, hne, List.getElem?_append_left hlt]
    · simp [Selection.exchanged, output, result?]
    · have hne : k ≠ before.length := Nat.ne_of_gt hgt
      have hnone (last : Branch) : (before ++ [last])[k]? = none := by
        rw [List.getElem?_eq_none]
        simp
        omega
      simp [Selection.exchanged, output, result?, hne, hnone]

end Condition

namespace Stamped

variable [Hasher] {s t : Stamped}

theorem select_exchanged (h : s.condition.check = .ok ()) (ht : t.condition = s.condition.turned) :
    t.select options args = (s.select options args).map
      (Selection.exchanged (s.condition.branches.length - 1)) := by
  have hturned : t.condition.check = .ok () := ht ▸ Condition.check_turned h
  rw [select_of_check hturned, select_of_check h, ht]
  obtain ⟨before, b, result, hc⟩ := Condition.exists_concat h
  have hlast : (before ++ [b]).length - 1 = 0 + before.length := by simp
  rw [hc, Condition.turned_concat, hlast]
  exact Branch.choose_opposed before b result 0

theorem select_eq_ok_iff (h : s.condition.check = .ok ()) (ht : t.condition = s.condition.turned)
    (selection : Selection) : t.select options args = .ok selection ↔
      s.select options args =
        .ok (selection.exchanged (s.condition.branches.length - 1)) := by
  rw [select_exchanged h ht, map_eq_ok_iff]
  simp only [Selection.exchanged_eq_iff, exists_eq_right]

/-- A sound condition and the one with its last branch negated, which exchanges its result with the
fallback, are both sound and fail alike, or have the same text. They select the same earlier branch,
or the last branch where the other one selects the fallback. The same exchange leads back, as does
negating a branch twice. -/
theorem select_turned (h : s.condition.check = .ok ()) (ht : t.condition = s.condition.turned)
    (options : Options) (args : List Value) :
    let last := s.condition.branches.length - 1
    t.condition.check = .ok () ∧
    t.apply options args = s.apply options args ∧
    (∀ failure, t.select options args = .error failure ↔ s.select options args = .error failure) ∧
    (∀ k < last, t.select options args = .ok (.branch k) ↔ s.select options args = .ok (.branch k)) ∧
    (t.select options args = .ok (.branch last) ↔ s.select options args = .ok .fallback) ∧
    (t.select options args = .ok .fallback ↔ s.select options args = .ok (.branch last)) ∧
    t.condition.turned = s.condition ∧ ∀ b ∈ s.condition.branches, b.negated.negated = b := by
  intro last
  refine ⟨ht ▸ Condition.check_turned h, ?_, fun failure ↦ ?_, fun k hk ↦ ?_, ?_, ?_, ?_,
    fun b _ ↦ b.negated_negated⟩
  · rw [apply, apply, select_exchanged h ht, ht, map_map]
    congr 1
    funext selection
    exact Condition.output_turned h selection
  · rw [select_exchanged h ht, map_eq_error_iff]
  · rw [select_eq_ok_iff h ht, Selection.exchanged, if_neg (Nat.ne_of_lt hk)]
  · rw [select_eq_ok_iff h ht, Selection.exchanged, if_pos rfl]
  · rw [select_eq_ok_iff h ht]
    rfl
  · rw [ht]
    exact Condition.turned_turned h

omit [Hasher] in
/-- Five lies in the range, so the negated range does not hold and the fallback has its result. -/
theorem select_turned_range :
    let _ := Digest.hasher
    let none : Branch := ⟨⟨0, .equal, false, .integer 0⟩, "none"⟩
    let few : Branch := ⟨⟨0, .range, false, .range (.ofInt 1) (.ofInt 5)⟩, "few"⟩
    let s := ((new (.ofLead "n=")).push none |>.push few).setFallback "many"
    let t := ((new (.ofLead "n=")).push none |>.push (few.opposed "many")).setFallback "few"
    s.condition.check = .ok () ∧ t.condition = s.condition.turned ∧
      s.select .standard [.integer 5] = .ok (.branch 1) ∧
      t.select .standard [.integer 5] = .ok .fallback ∧
      t.apply .standard [.integer 5] = s.apply .standard [.integer 5] ∧
      t.select .standard [.integer 0] = .ok (.branch 0) ∧
      t.select .standard [.integer 6] = .ok (.branch 1) ∧
      t.select .standard [.text "5"] = .error (.mismatch .text .integer) ∧
      t.condition.turned = s.condition ∧ ∀ b ∈ s.condition.branches, b.negated.negated = b := by
  intro _ none few s t
  have hcheck : s.condition.check = .ok () := toOption_eq_some_iff.1 (by decide +kernel)
  have ht : t.condition = s.condition.turned := rfl
  have hfew : s.select .standard [.integer 5] = .ok (.branch 1) :=
    toOption_eq_some_iff.1 (by decide +kernel)
  have hnone : s.select .standard [.integer 0] = .ok (.branch 0) :=
    toOption_eq_some_iff.1 (by decide +kernel)
  have hmany : s.select .standard [.integer 6] = .ok .fallback :=
    toOption_eq_some_iff.1 (by decide +kernel)
  have htext : s.select .standard [.text "5"] = .error (.mismatch .text .integer) :=
    error?_eq_some_iff.1 (by decide +kernel)
  obtain ⟨-, happly, -, -, -, hfallback, hback⟩ := select_turned hcheck ht .standard [.integer 5]
  obtain ⟨-, -, -, hearlier, -⟩ := select_turned hcheck ht .standard [.integer 0]
  obtain ⟨-, -, -, -, hlast, -⟩ := select_turned hcheck ht .standard [.integer 6]
  obtain ⟨-, -, hfailed, -⟩ := select_turned hcheck ht .standard [.text "5"]
  exact ⟨hcheck, ht, hfew, hfallback.2 hfew, happly, (hearlier 0 (by decide)).2 hnone,
    hlast.2 hmany, (hfailed _).2 htext, hback⟩

end Stamped

end Phrasing
