import Mathlib.Data.List.Basic
import Phrasing.Condition.Shelf
import Phrasing.Proofs.Check

/-!
Stamps never stand for more than a check: a stamp is either missing, or it was put there by a check
of the content the condition still has, and this is true of any digest.

What was done with each condition is recorded beside the conditions, and a step keeps the two
together.
-/

namespace Phrasing

open Grammar Outcome Workbench

/-- What can happen to a condition: it is changed, or a check of it succeeds. -/
inductive Deed where
  | changed
  | checked
deriving DecidableEq

/-- A check succeeded, and nothing was changed since. -/
def CheckedSince (log : List Deed) : Prop :=
  ∃ before after, log = before ++ .checked :: after ∧ .changed ∉ after

namespace CheckedSince

variable {log : List Deed}

theorem not_nil : ¬ CheckedSince [] := by
  intro h
  obtain ⟨before, after, heq, -⟩ := h
  simp at heq

theorem not_changed : ¬ CheckedSince (log ++ [.changed]) := by
  intro h
  obtain ⟨before, after, heq, hafter⟩ := h
  have hlast : (before ++ Deed.checked :: after).getLast? = some .changed := by simp [← heq]
  rw [List.getLast?_append_of_ne_nil _ (List.cons_ne_nil _ _)] at hlast
  rcases List.mem_cons.1 (List.mem_of_getLast? hlast) with hhead | hmem
  · cases hhead
  · exact hafter hmem

theorem checked : CheckedSince (log ++ [.checked]) :=
  ⟨log, [], rfl, by simp⟩

end CheckedSince

variable [Hasher]

namespace Condition

/-- The outcome of a use that checks the condition each time. -/
def outcome (c : Condition) : Use → Except Failure Answer
  | .validate => (c.check.mapError .unsound).map fun _ ↦ .sound
  | .select args options => do
    c.check.mapError .unsound
    (Branch.choose options args 0 c.branches).map .selection
  | .apply args options => do
    c.check.mapError .unsound
    ((Branch.choose options args 0 c.branches).map c.output).map .output

end Condition

/-- How a condition with its stamp agrees with what was done with it. -/
inductive Tracks : Stamped → List Deed → Prop
  | unstamped (c : Condition) {log : List Deed} (hlog : ¬ CheckedSince log) : Tracks (.new c) log
  | stamped {c : Condition} {log : List Deed} (hcheck : c.check = .ok ())
      (hlog : CheckedSince log) : Tracks (stamped c) log

namespace Tracks

variable {s : Stamped} {log : List Deed}

theorem new (c : Condition) : Tracks (.new c) [] := .unstamped c CheckedSince.not_nil

theorem changed (c : Condition) : Tracks (.new c) (log ++ [.changed]) :=
  .unstamped c CheckedSince.not_changed

/-- A check of a condition is the check of its content, and it leaves the stamp of this content. -/
theorem validate (h : Tracks s log) : s.validate =
    (s.condition.check.mapError .unsound).map fun _ ↦ Grammar.stamped s.condition := by
  cases h with
  | unstamped c =>
    rw [validate_new]
    cases hcheck : c.check with
    | ok => simp [Stamped.new, hcheck, Except.mapError, Except.map]
    | error => simp [Stamped.new, hcheck, Except.mapError, Except.map]
  | stamped hcheck =>
    rw [validate_stamped hcheck]
    simp [Grammar.stamped, hcheck, Except.mapError, Except.map]

theorem isValidated_iff (h : Tracks s log) : s.isValidated = true ↔ CheckedSince log := by
  cases h with
  | unstamped c hlog => simp [Stamped.isValidated, Stamped.new, hlog]
  | stamped hcheck hlog => simp [isValidated_stamped hcheck, hlog]

theorem answer (h : Tracks s log) (use : Use) : s.answer use = s.condition.outcome use := by
  cases use with
  | validate =>
    rw [Stamped.answer, h.validate, Condition.outcome]
    cases s.condition.check <;> rfl
  | select args options =>
    rw [Stamped.answer, Stamped.select, h.validate, Condition.outcome]
    cases s.condition.check <;> rfl
  | apply args options =>
    rw [Stamped.answer, Stamped.apply, Stamped.select, h.validate, Condition.outcome]
    cases s.condition.check <;> rfl

/-- A use is in the record just when its check succeeds. -/
theorem used (h : Tracks s log) :
    Tracks s.checked (log ++ if s.validate.isOk then [.checked] else []) := by
  cases hcheck : s.condition.check with
  | error flaw =>
    have hvalid : s.validate = .error (.unsound flaw) := by
      rw [h.validate, hcheck]
      rfl
    simpa [Stamped.checked, hvalid, Except.isOk, Except.toBool] using h
  | ok =>
    have hvalid : s.validate = .ok (Grammar.stamped s.condition) := by
      rw [h.validate, hcheck]
      rfl
    simpa [Stamped.checked, hvalid, Except.isOk, Except.toBool] using
      stamped hcheck CheckedSince.checked

end Tracks

theorem Stamped.checked_condition (s : Stamped) : s.checked.condition = s.condition := by
  unfold checked
  split
  · next t hvalid => exact validate_condition hvalid
  · rfl

namespace Shelf

variable {ι : Type} [DecidableEq ι]

/-- Adds a step to the record of what was done with each condition. A copy has the record of its
original up to then, and conditions that are exchanged keep theirs. -/
def record (s : Shelf ι) (log : ι → List Deed) : Step ι → ι → List Deed
  | .new i _ => Function.update log i []
  | .push i _ | .setFallback i _ => Function.update log i (log i ++ [.changed])
  | .use i _ =>
    Function.update log i (log i ++ if (s i).validate.isOk then [.checked] else [])
  | .clone i j => Function.update log j (log i)
  | .swap i j => Function.update (Function.update log j (log i)) i (log j)

/-- What was done with each condition while the steps were taken. -/
def recordAll (s : Shelf ι) (log : ι → List Deed) : List (Step ι) → ι → List Deed
  | [] => log
  | step :: steps => recordAll (s.run step).2 (s.record log step) steps

variable {s : Shelf ι} {log : ι → List Deed}

theorem tracks_update {i : ι} {condition : Stamped} {deeds : List Deed}
    (h : ∀ k, Tracks (s k) (log k)) (hcondition : Tracks condition deeds) (k : ι) :
    Tracks (Function.update s i condition k) (Function.update log i deeds k) := by
  by_cases hk : k = i
  · subst hk
    simpa only [Function.update_self] using hcondition
  · simpa only [Function.update_of_ne hk] using h k

theorem tracks_run (h : ∀ k, Tracks (s k) (log k)) (step : Step ι) :
    ∀ k, Tracks ((s.run step).2 k) (s.record log step k) := by
  cases step with
  | new i lead => exact tracks_update h (.new _)
  | push i branch => exact tracks_update h (.changed _)
  | setFallback i result => exact tracks_update h (.changed _)
  | use i use => exact tracks_update h (h i).used
  | clone i j => exact tracks_update h (h i)
  | swap i j => exact tracks_update (tracks_update h (h i)) (h j)

theorem tracks_runAll (h : ∀ k, Tracks (s k) (log k)) (steps : List (Step ι)) :
    ∀ k, Tracks ((s.runAll steps).2 k) (s.recordAll log steps k) := by
  induction steps generalizing s log with
  | nil => exact h
  | cons step steps ih => exact ih (tracks_run h step)

theorem run_use_condition (s : Shelf ι) (i : ι) (use : Use) (k : ι) :
    ((s.run (.use i use)).2 k).condition = (s k).condition := by
  by_cases hk : k = i
  · subst hk
    simpa only [run, Function.update_self] using (s k).checked_condition
  · simp only [run, Function.update_of_ne hk]

/-- After any steps and with any digest, a check of a condition tells what a check of its content
tells, a condition is validated just when a check succeeded since it was changed last, and a use
has the outcome that the content alone determines and leaves all contents as they are. -/
theorem validate_runAll (steps : List (Step ι)) (i : ι) (use : Use) :
    let s : Shelf ι := ((new : Shelf ι).runAll steps).2
    (s i).validate.map (fun _ ↦ ()) = (s i).condition.check.mapError .unsound ∧
      ((s i).isValidated = true ↔
        CheckedSince ((new : Shelf ι).recordAll (fun _ ↦ []) steps i)) ∧
      (s.run (.use i use)).1 = (s i).condition.outcome use ∧
      ∀ k, ((s.run (.use i use)).2 k).condition = (s k).condition := by
  intro s
  have hnew : ∀ k, Tracks ((new : Shelf ι) k) [] := fun _ ↦ .new _
  have h : Tracks (s i) _ := tracks_runAll hnew steps i
  refine ⟨?_, h.isValidated_iff, h.answer use, s.run_use_condition i use⟩
  rw [h.validate]
  cases (s i).condition.check <;> rfl

end Shelf

theorem Stamped.validate_of_validate {s t : Stamped} (h : s.validate = .ok t) :
    t.validate = .ok t := by
  have hs := h
  unfold validate at h
  dsimp only at h
  split at h
  · cases h
    exact hs
  · split at h
    · next hcheck =>
      cases h
      exact validate_stamped hcheck
    · cases h

namespace Workbench

/-- The condition at work and the one put aside, by name. -/
def shelf (w : Workbench) : Shelf Bool := fun atWork ↦ if atWork then w.current else w.saved

/-- What a step at a workbench does with its conditions, unless it only looks at them. -/
def Step.onShelf? : Step → Option (Shelf.Step Bool)
  | .push branch => some (.push true branch)
  | .setFallback result => some (.setFallback true result)
  | .validate => some (.use true .validate)
  | .look | .compare => none
  | .save => some (.clone true false)
  | .swap => some (.swap true false)
  | .select args options => some (.use true (.select args options))
  | .apply args options => some (.use true (.apply args options))

omit [Hasher] in
theorem shelf_current (w : Workbench) (s : Stamped) :
    Function.update w.shelf true s = shelf { w with current := s } := by
  funext atWork
  cases atWork <;> rfl

omit [Hasher] in
theorem shelf_saved (w : Workbench) (s : Stamped) :
    Function.update w.shelf false s = shelf { w with saved := s } := by
  funext atWork
  cases atWork <;> rfl

theorem checked_eq (w : Workbench) (answer : Stamped → Except Failure Answer) :
    w.checked answer =
      (w.current.validate >>= answer, { w with current := w.current.checked }) := by
  unfold checked Stamped.checked
  cases w.current.validate <;> rfl

theorem run_use {w : Workbench} {step : Step} {use : Use}
    (hstep : step.onShelf? = some (.use true use)) :
    w.run step = (w.current.answer use, { w with current := w.current.checked }) := by
  cases step with
  | validate =>
    cases hstep
    rw [run, checked_eq, Stamped.answer]
    cases w.current.validate <;> rfl
  | select args options =>
    cases hstep
    rw [run, checked_eq, Stamped.answer, Stamped.select]
    cases hvalid : w.current.validate with
    | error => rfl
    | ok t =>
      simp only [bind, Except.bind, Stamped.select, Stamped.validate_of_validate hvalid]
  | apply args options =>
    cases hstep
    rw [run, checked_eq, Stamped.answer, Stamped.apply, Stamped.select]
    cases hvalid : w.current.validate with
    | error => rfl
    | ok t =>
      simp only [bind, Except.bind, Stamped.apply, Stamped.select,
        Stamped.validate_of_validate hvalid, Stamped.validate_condition hvalid]
  | _ => cases hstep

/-- A step at a workbench is the step on the shelf of its two conditions. -/
theorem run_onShelf {w : Workbench} {step : Step} {onShelf : Shelf.Step Bool}
    (h : step.onShelf? = some onShelf) :
    (w.run step).1 = (w.shelf.run onShelf).1 ∧
      (w.run step).2.shelf = (w.shelf.run onShelf).2 := by
  cases step with
  | push branch =>
    cases h
    exact ⟨rfl, (w.shelf_current _).symm⟩
  | setFallback result =>
    cases h
    exact ⟨rfl, (w.shelf_current _).symm⟩
  | save =>
    cases h
    exact ⟨rfl, (w.shelf_saved _).symm⟩
  | swap =>
    cases h
    refine ⟨rfl, ?_⟩
    funext atWork
    cases atWork <;> rfl
  | look | compare => cases h
  | validate | select | apply =>
    obtain ⟨use, rfl⟩ : ∃ use, onShelf = .use true use := ⟨_, (Option.some.inj h).symm⟩
    rw [run_use h]
    exact ⟨rfl, (w.shelf_current _).symm⟩

theorem runAll_onShelf (w : Workbench) (steps : List Step) :
    (w.runAll steps).2.shelf = (w.shelf.runAll (steps.filterMap Step.onShelf?)).2 := by
  induction steps generalizing w with
  | nil => rfl
  | cons step steps ih =>
    simp only [runAll, List.filterMap_cons, ih]
    cases hstep : step.onShelf? with
    | none => cases step <;> first | rfl | cases hstep
    | some onShelf => rw [Shelf.runAll, (run_onShelf hstep).2]

end Workbench

end Phrasing
