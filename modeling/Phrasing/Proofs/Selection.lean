import Phrasing.Proofs.Outcome
import Phrasing.Selection

/-!
Choosing among branches: a choice comes with an account of the comparisons that led to it, and where
none is made a check or a comparison has failed.
-/

namespace Phrasing

open Outcome

variable {options : Options} {args : List Value} {branches : List Branch} {index : Nat}
  {selection : Selection} {events : List Event} {failure : Failure}

namespace Branch

/-- The events of branches that do not hold, counted from `index`. -/
def passed (index : Nat) (branches : List Branch) : List Event :=
  (branches.zipIdx index).map fun (branch, i) ↦ .branch i branch false

theorem length_passed (branches : List Branch) : (passed index branches).length = branches.length := by
  rw [passed, List.length_map, List.length_zipIdx]

/-- A selection among branches that are counted from `index`, and the events that account for it:
those before it do not hold, and it does itself unless it is the fallback. -/
inductive Account (options : Options) (args : List Value) (index : Nat) :
    List Branch → Selection → List Event → Prop
  | branch {before after : List Branch} {b : Branch}
      (hbefore : ∀ a ∈ before, a.evaluate options args = .ok false)
      (hb : b.evaluate options args = .ok true) :
      Account options args index (before ++ b :: after) (.branch (index + before.length))
        (passed index before ++ [.branch (index + before.length) b true])
  | fallback {branches : List Branch} (h : ∀ b ∈ branches, b.evaluate options args = .ok false) :
      Account options args index branches .fallback (passed index branches ++ [.fallback])

theorem Account.cons {b : Branch} (hb : b.evaluate options args = .ok false)
    (h : Account options args (index + 1) branches selection events) :
    Account options args index (b :: branches) selection (.branch index b false :: events) := by
  cases h with
  | @branch before after c hbefore hc =>
    rw [Nat.add_assoc, Nat.add_comm 1]
    exact .branch (List.forall_mem_cons.2 ⟨hb, hbefore⟩) hc
  | fallback h => exact .fallback (List.forall_mem_cons.2 ⟨hb, h⟩)

theorem Account.lt {k : Nat} (h : Account options args 0 branches (.branch k) events) :
    k < branches.length := by
  cases h with
  | branch =>
    rw [List.length_append, List.length_cons]
    omega

theorem account_of_chooseTraced
    (h : chooseTraced options args index branches = .ok (selection, events)) :
    Account options args index branches selection events := by
  induction branches generalizing index selection events with
  | nil =>
    cases h
    exact .fallback (List.forall_mem_nil _)
  | cons b branches ih =>
    obtain ⟨holds, hb, h⟩ := bind_eq_ok_iff.1 h
    cases holds with
    | true =>
      cases h
      exact .branch (List.forall_mem_nil _) hb
    | false =>
      obtain ⟨⟨selection, later⟩, hlater, h⟩ := bind_eq_ok_iff.1 h
      cases h
      exact (ih hlater).cons hb

theorem choose_singleton (b : Branch) (index : Nat) : choose options args index [b] =
    (b.evaluate options args).map fun holds ↦ if holds then .branch index else .fallback := by
  rw [choose]
  cases b.evaluate options args with
  | error => rfl
  | ok holds => cases holds <;> rfl

/-- A trace does not change what is chosen. -/
theorem chooseTraced_fst (branches : List Branch) (index : Nat) :
    (chooseTraced options args index branches).map Prod.fst =
      choose options args index branches := by
  induction branches generalizing index with
  | nil => rfl
  | cons branch branches ih =>
    rw [choose, ← ih, chooseTraced]
    cases branch.evaluate options args with
    | error => rfl
    | ok holds =>
      cases holds with
      | true => rfl
      | false => cases chooseTraced options args (index + 1) branches <;> rfl

theorem exists_of_choose (h : choose options args index branches = .error failure) :
    ∃ b ∈ branches, b.evaluate options args = .error failure := by
  induction branches generalizing index with
  | nil => cases h
  | cons b branches ih =>
    rcases bind_eq_error_iff.1 h with hb | ⟨holds, -, h⟩
    · exact ⟨b, List.mem_cons_self, hb⟩
    · cases holds with
      | true => cases h
      | false =>
        obtain ⟨c, hc, hfailed⟩ := ih h
        exact ⟨c, List.mem_cons_of_mem _ hc, hfailed⟩

end Branch

namespace Condition

/-- The result that is chosen: that of the branch at an index, or the fallback. -/
inductive Chosen (c : Condition) : Selection → String → Prop
  | branch {k : Nat} {b : Branch} (h : c.branches[k]? = some b) : Chosen c (.branch k) b.result
  | fallback {result : String} (h : c.fallback = some result) : Chosen c .fallback result

theorem Chosen.output_eq {c : Condition} {result : String} (h : c.Chosen selection result) :
    c.output selection = c.lead ++ result := by
  cases h with
  | branch h => rw [output, result?, h, Option.map_some, Option.getD_some]
  | fallback h => rw [output, result?, h, Option.getD_some]

end Condition

namespace Stamped

variable [Hasher] {s : Stamped}

theorem validate_error (h : s.validate = .error failure) :
    ∃ flaw, s.condition.check = .error flaw ∧ failure = .unsound flaw := by
  unfold validate at h
  dsimp only at h
  split at h
  · cases h
  · split at h
    · cases h
    · next flaw hcheck =>
      cases h
      exact ⟨flaw, hcheck, rfl⟩

theorem select_of_check (h : s.condition.check = .ok ()) :
    s.select options args = Branch.choose options args 0 s.condition.branches := by
  cases hvalid : s.validate with
  | error failure =>
    obtain ⟨flaw, hflaw, -⟩ := validate_error hvalid
    cases h.symm.trans hflaw
  | ok checked =>
    rw [select, hvalid, ← validate_condition hvalid]
    rfl

theorem selectTraced_fst (options : Options) (args : List Value) (s : Stamped) :
    (s.selectTraced options args).map Prod.fst = s.select options args := by
  rw [selectTraced, select]
  cases s.validate with
  | error => rfl
  | ok s => exact Branch.chooseTraced_fst s.condition.branches 0

theorem account_of_selectTraced (h : s.selectTraced options args = .ok (selection, events)) :
    Branch.Account options args 0 s.condition.branches selection events := by
  obtain ⟨t, hvalid, h⟩ := bind_eq_ok_iff.1 h
  rw [validate_condition hvalid] at h
  exact Branch.account_of_chooseTraced h

theorem lt_of_select {k : Nat} (h : s.select options args = .ok (.branch k)) :
    k < s.condition.branches.length := by
  rw [← selectTraced_fst] at h
  obtain ⟨⟨selection, events⟩, htraced, rfl⟩ := map_eq_ok_iff.1 h
  exact (account_of_selectTraced htraced).lt

/-- A selection fails because the condition has a flaw, or because a comparison fails. -/
theorem exists_of_select (h : s.select options args = .error failure) :
    (∃ flaw, s.condition.check = .error flaw ∧ failure = .unsound flaw) ∨
      ∃ b ∈ s.condition.branches, b.evaluate options args = .error failure := by
  rcases bind_eq_error_iff.1 h with hvalid | ⟨t, hvalid, h⟩
  · exact .inl (validate_error hvalid)
  · rw [validate_condition hvalid] at h
    exact .inr (Branch.exists_of_choose h)

end Stamped

end Phrasing
