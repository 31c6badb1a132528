import Phrasing.Condition.Digest
import Phrasing.Proofs.Faults
import Phrasing.Proofs.Stamp

/-!
The first branch that holds is chosen, however the condition was made: branches are decided one after
the other, up to the first that holds or fails, and what follows it does not matter.
-/

namespace Phrasing

open Outcome

variable {options : Options} {args : List Value}

namespace Branch

/-- The branches before that index do not hold, and deciding the branch there has that outcome. -/
def Stops (options : Options) (args : List Value) (branches : List Branch) (k : Nat)
    (outcome : Except Failure Bool) : Prop :=
  (∀ b ∈ branches.take k, b.evaluate options args = .ok false) ∧
    ∃ b, branches[k]? = some b ∧ b.evaluate options args = outcome

variable {branches : List Branch} {b : Branch} {k : Nat} {outcome : Except Failure Bool}

theorem stops_zero_iff :
    Stops options args (b :: branches) 0 outcome ↔ b.evaluate options args = outcome := by
  simp [Stops]

theorem stops_succ_iff : Stops options args (b :: branches) (k + 1) outcome ↔
    b.evaluate options args = .ok false ∧ Stops options args branches k outcome := by
  simp [Stops, and_assoc]

theorem choose_of_stops (h : Stops options args branches k outcome) (hne : outcome ≠ .ok false)
    (index : Nat) :
    choose options args index branches = outcome.map fun _ ↦ .branch (index + k) := by
  induction branches generalizing k index with
  | nil =>
    obtain ⟨-, b, hb, -⟩ := h
    cases hb
  | cons b branches ih =>
    cases k with
    | zero =>
      rw [choose, stops_zero_iff.1 h]
      cases outcome with
      | error => rfl
      | ok holds =>
        cases holds with
        | true => rfl
        | false => exact absurd rfl hne
    | succ k =>
      obtain ⟨hb, hlater⟩ := stops_succ_iff.1 h
      rw [choose, hb, ← Nat.add_assoc, Nat.add_right_comm, ← ih hlater]
      rfl

theorem choose_of_forall (h : ∀ b ∈ branches, b.evaluate options args = .ok false) (index : Nat) :
    choose options args index branches = .ok .fallback := by
  induction branches generalizing index with
  | nil => rfl
  | cons b branches ih =>
    obtain ⟨hb, hlater⟩ := List.forall_mem_cons.1 h
    rw [choose, hb]
    exact ih hlater (index + 1)

theorem forall_or_stops (options : Options) (args : List Value) (branches : List Branch) :
    (∀ b ∈ branches, b.evaluate options args = .ok false) ∨
      ∃ k outcome, outcome ≠ .ok false ∧ Stops options args branches k outcome := by
  induction branches with
  | nil => exact .inl (List.forall_mem_nil _)
  | cons b branches ih =>
    by_cases hb : b.evaluate options args = .ok false
    · rcases ih with hlater | ⟨k, outcome, hne, hstops⟩
      · exact .inl (List.forall_mem_cons.2 ⟨hb, hlater⟩)
      · exact .inr ⟨k + 1, outcome, hne, stops_succ_iff.2 ⟨hb, hstops⟩⟩
    · exact .inr ⟨0, _, hb, stops_zero_iff.2 rfl⟩

theorem choose_eq_branch_iff : choose options args 0 branches = .ok (.branch k) ↔
    Stops options args branches k (.ok true) := by
  constructor
  · intro h
    rcases forall_or_stops options args branches with hall | ⟨n, outcome, hne, hstops⟩
    · cases (choose_of_forall hall 0).symm.trans h
    · obtain ⟨holds, rfl, hn⟩ := map_eq_ok_iff.1 ((choose_of_stops hstops hne 0).symm.trans h)
      obtain rfl : n = k := by simpa using hn
      cases holds with
      | true => exact hstops
      | false => exact absurd rfl hne
  · intro h
    rw [choose_of_stops h (by simp), Nat.zero_add]
    rfl

theorem choose_eq_fallback_iff : choose options args 0 branches = .ok .fallback ↔
    ∀ b ∈ branches, b.evaluate options args = .ok false := by
  constructor
  · intro h
    rcases forall_or_stops options args branches with hall | ⟨n, outcome, hne, hstops⟩
    · exact hall
    · obtain ⟨holds, -, hn⟩ := map_eq_ok_iff.1 ((choose_of_stops hstops hne 0).symm.trans h)
      cases hn
  · intro h
    exact choose_of_forall h 0

theorem choose_eq_error_iff {failure : Failure} :
    choose options args 0 branches = .error failure ↔
      ∃ k, Stops options args branches k (.error failure) := by
  constructor
  · intro h
    rcases forall_or_stops options args branches with hall | ⟨k, outcome, hne, hstops⟩
    · cases (choose_of_forall hall 0).symm.trans h
    · obtain rfl := map_eq_error_iff.1 ((choose_of_stops hstops hne 0).symm.trans h)
      exact ⟨k, hstops⟩
  · intro h
    obtain ⟨k, hstops⟩ := h
    exact choose_of_stops hstops (by simp) 0

end Branch

variable [Hasher]

namespace Stamped

/-- The conditions there can be: they are read from a source or start with a lead only, and are then
added to, given a fallback, and used, in any order. -/
inductive Built : Stamped → Prop
  | ofLead (lead : String) : Built (.new (.ofLead lead))
  | read {source : String} {t : Template} {s : Stamped} (h : compile source = .ok t)
      (hs : s ∈ t.conditions) : Built s
  | push {s : Stamped} (h : Built s) (branch : Branch) : Built (s.push branch)
  | setFallback {s : Stamped} (h : Built s) (result : String) : Built (s.setFallback result)
  | checked {s : Stamped} (h : Built s) : Built s.checked

variable {s : Stamped} {selection : Selection} {failure : Failure}

theorem Built.tracks (h : s.Built) : ∃ log, Tracks s log := by
  induction h with
  | ofLead lead => exact ⟨[], .new _⟩
  | @read source t s h hs =>
    obtain ⟨hstamped, hcheck⟩ := (Source.compile_iff.1 h).1.sound s hs
    have hlog : CheckedSince ([] ++ [.checked]) := .checked
    rw [hstamped]
    exact ⟨_, .stamped hcheck hlog⟩
  | @push s h branch ih =>
    obtain ⟨log, -⟩ := ih
    exact ⟨log ++ [Deed.changed], .changed (s.condition.push branch)⟩
  | @setFallback s h result ih =>
    obtain ⟨log, -⟩ := ih
    exact ⟨log ++ [Deed.changed], .changed (s.condition.setFallback result)⟩
  | checked h ih =>
    obtain ⟨log, htracks⟩ := ih
    exact ⟨_, htracks.used⟩

theorem Built.select_of_flaw {flaw : Flaw} (h : s.Built) (hcheck : s.condition.check = .error flaw) :
    s.select options args = .error (.unsound flaw) := by
  obtain ⟨log, htracks⟩ := h.tracks
  rw [select, htracks.validate, hcheck]
  rfl

theorem Built.check_of_select (h : s.Built) (hselect : s.select options args = .ok selection) :
    s.condition.check = .ok () := by
  cases hcheck : s.condition.check with
  | ok => rfl
  | error flaw => cases (h.select_of_flaw hcheck).symm.trans hselect

/-- Deciding the branches of a sound condition never blames the condition. -/
theorem Built.select_unsound_iff {flaw : Flaw} (h : s.Built) :
    s.select options args = .error (.unsound flaw) ↔ s.condition.check = .error flaw := by
  constructor
  · intro hselect
    cases hcheck : s.condition.check with
    | ok =>
      rw [select_of_check hcheck] at hselect
      obtain ⟨b, hb, hfailed⟩ := Branch.exists_of_choose hselect
      have hmatched := (Condition.check_eq_ok_iff.1 hcheck).2.2 b hb
      cases (Comparison.fails_of_evaluate hfailed).isArgumentFault hmatched.2
    | error flaw' =>
      obtain rfl := Failure.unsound.inj (Except.error.inj ((h.select_of_flaw hcheck).symm.trans hselect))
      rfl
  · exact h.select_of_flaw

theorem Built.exists_result (h : s.Built) (hselect : s.select options args = .ok selection) :
    ∃ result, s.condition.Chosen selection result ∧ Text.isBlankText result = false := by
  have hcheck := h.check_of_select hselect
  obtain ⟨-, ⟨fallback, hfallback, hblank⟩, hbranches⟩ := Condition.check_eq_ok_iff.1 hcheck
  cases selection with
  | fallback => exact ⟨fallback, .fallback hfallback, hblank⟩
  | branch k =>
    rw [select_of_check hcheck, Branch.choose_eq_branch_iff] at hselect
    obtain ⟨-, b, hb, -⟩ := hselect
    exact ⟨b.result, .branch hb, (hbranches b (List.mem_of_getElem? hb)).1⟩

/-- A condition that was made in any way is refused just for a flaw in its structure. If it has none,
its first branch that holds is chosen unless one before fails, and its fallback if no branch holds.
What is chosen is there and has a result of its own, which follows the lead. -/
theorem select_firstMatch (h : s.Built) (options : Options) (args : List Value) :
    (∀ flaw, s.select options args = .error (.unsound flaw) ↔ s.condition.check = .error flaw) ∧
    (s.condition.check = .ok () →
      (∀ k, s.select options args = .ok (.branch k) ↔
        Branch.Stops options args s.condition.branches k (.ok true)) ∧
      (s.select options args = .ok .fallback ↔
        ∀ b ∈ s.condition.branches, b.evaluate options args = .ok false) ∧
      ∀ failure, s.select options args = .error failure ↔
        ∃ k, Branch.Stops options args s.condition.branches k (.error failure)) ∧
    (∀ selection, s.select options args = .ok selection → ∃ result,
      s.condition.Chosen selection result ∧ Text.isBlankText result = false ∧
        s.apply options args = .ok (s.condition.lead ++ result)) ∧
    ∀ failure, s.apply options args = .error failure ↔ s.select options args = .error failure := by
  refine ⟨fun flaw ↦ h.select_unsound_iff, fun hcheck ↦ ?_, fun selection hselect ↦ ?_,
    fun failure ↦ map_eq_error_iff⟩
  · rw [select_of_check hcheck]
    exact ⟨fun k ↦ Branch.choose_eq_branch_iff, Branch.choose_eq_fallback_iff,
      fun failure ↦ Branch.choose_eq_error_iff⟩
  · obtain ⟨result, hresult, hblank⟩ := h.exists_result hselect
    refine ⟨result, hresult, hblank, ?_⟩
    rw [apply, hselect, Except.map, hresult.output_eq]

omit [Hasher] in
/-- The second branch asks for an argument that is missing, which matters only where the first does
not hold. -/
theorem select_firstMatch_missing :
    let _ := Digest.hasher
    let one : Branch := ⟨⟨0, .equal, false, .integer 1⟩, "one"⟩
    let never : Branch := ⟨⟨9, .equal, false, .integer 1⟩, "never"⟩
    let s := (((Stamped.new (.ofLead "n=")).push one).push never).setFallback "else"
    s.Built ∧ s.condition.check = .ok () ∧
      s.select .standard [.integer 1] = .ok (.branch 0) ∧
      (∃ result, s.condition.Chosen (.branch 0) result ∧ Text.isBlankText result = false ∧
        s.apply .standard [.integer 1] = .ok (s.condition.lead ++ result)) ∧
      s.select .standard [.integer 2] = .error (.missingArgument 9 1) := by
  intro _ one never s
  have hbuilt : s.Built := .setFallback (.push (.push (.ofLead "n=") one) never) "else"
  have hcheck : s.condition.check = .ok () := by decide +kernel
  have hone : one.evaluate .standard [.integer 1] = .ok true := by decide +kernel
  have hnot : one.evaluate .standard [.integer 2] = .ok false := by decide +kernel
  have hnever : never.evaluate .standard [.integer 2] = .error (.missingArgument 9 1) := by
    decide +kernel
  have hfirst : s.select .standard [.integer 1] = .ok (.branch 0) :=
    (((select_firstMatch hbuilt .standard [.integer 1]).2.1 hcheck).1 0).2
      (Branch.stops_zero_iff.2 hone)
  have hresult := (select_firstMatch hbuilt .standard [.integer 1]).2.2.1 _ hfirst
  refine ⟨hbuilt, hcheck, hfirst, hresult, ?_⟩
  refine (((select_firstMatch hbuilt .standard [.integer 2]).2.1 hcheck).2.2 _).2 ⟨1, ?_⟩
  exact Branch.stops_succ_iff.2 ⟨hnot, Branch.stops_zero_iff.2 hnever⟩

end Stamped

end Phrasing
