import Phrasing.Proofs.Outcome
import Phrasing.Proofs.Settings.Overlay
import Phrasing.Settings.Basic

/-!
What the fields of a section are read from: a table has them by name, and a list in their order.
-/

namespace Phrasing.Settings

open Outcome

def sections : List String := ["engine", "observability"]

namespace Tree

def isSection : Tree → Bool
  | list _ | table _ => true
  | _ => false

/-- A field of a section, found by its name, or by its place among the fields. -/
def field? (fields : List String) (name : String) : Tree → Option Tree
  | list items => (fields.zip items).lookup name
  | tree => tree.entries.lookup name

theorem get?_pair (tree : Tree) (name field : String) :
    tree.get? [name, field] = (tree.get? [name]).bind fun top ↦ top.entries.lookup field := by
  rw [get?_cons, get?_singleton]
  congr
  funext top
  exact top.get?_singleton field

theorem field?_of_not_list {tree : Tree} {name : String}
    (h : ∀ items, tree.get? [name] ≠ some (.list items)) (fields : List String) (field : String) :
    (tree.get? [name]).bind (Tree.field? fields field) = tree.get? [name, field] := by
  rw [get?_pair]
  cases htop : tree.get? [name] with
  | none => rfl
  | some top =>
    cases top with
    | list items => exact absurd htop (h items)
    | bool | integer | float | text | void | table => rfl

end Tree

variable {tree opened : Tree} {name : String} {fields : List String}

theorem openSection_of_isSection (h : tree.IsSection [name]) :
    openSection name fields tree = .ok tree := by
  unfold openSection
  cases htop : tree.get? [name] with
  | none => rfl
  | some top =>
    have htable := h top htop
    cases top with
    | table => rfl
    | bool | integer | float | text | void | list => cases htable

theorem openSection_cases (h : openSection name fields tree = .ok opened) :
    (opened = tree ∧ ∀ items, tree.get? [name] ≠ some (.list items)) ∨
      ∃ items, tree.get? [name] = some (.list items) ∧
        opened = tree.alter name fun _ ↦ .table (fields.zip items) := by
  unfold openSection at h
  split at h
  · next hnone =>
    cases h
    exact .inl ⟨rfl, by simp [hnone]⟩
  · next htable =>
    cases h
    exact .inl ⟨rfl, by simp [htable]⟩
  · next items hlist =>
    cases h
    exact .inr ⟨items, hlist, rfl⟩
  · cases h

/-- Nothing changes beside a section that is opened. -/
theorem get?_openSection (h : openSection name fields tree = .ok opened) {other : String}
    (hother : other ≠ name) (path : List String) :
    opened.get? (other :: path) = tree.get? (other :: path) := by
  rcases openSection_cases h with ⟨rfl, -⟩ | ⟨items, -, rfl⟩
  · rfl
  · rw [Tree.get?_cons, Tree.lookup_alter, if_neg (by simp [hother])]
    rfl

theorem field?_openSection (h : openSection name fields tree = .ok opened) (field : String) :
    opened.get? [name, field] = (tree.get? [name]).bind (Tree.field? fields field) := by
  rcases openSection_cases h with ⟨rfl, hlist⟩ | ⟨items, hlist, rfl⟩
  · exact (Tree.field?_of_not_list hlist fields field).symm
  · rw [hlist, Tree.get?_cons, Tree.lookup_alter, if_pos (beq_self_eq_true name)]
    exact Tree.get?_singleton (.table (fields.zip items)) field

theorem exists_openSection_iff (fields : List String) :
    (∃ opened, openSection name fields tree = .ok opened) ↔
      ∀ top, tree.get? [name] = some top → top.isSection = true := by
  unfold openSection
  cases tree.get? [name] with
  | none => simp
  | some top => cases top <;> simp [Tree.isSection]

theorem exists_openSections_iff : (∃ opened, openSections tree = .ok opened) ↔
    ∀ name ∈ sections, ∀ top, tree.get? [name] = some top → top.isSection = true := by
  have hnext {engine : Tree} (h : openSection "engine" engineFields tree = .ok engine) :
      engine.get? ["observability"] = tree.get? ["observability"] :=
    get?_openSection h (by decide) []
  simp only [sections, List.forall_mem_cons, List.not_mem_nil, false_implies, implies_true, and_true]
  rw [← exists_openSection_iff engineFields, ← exists_openSection_iff observabilityFields]
  constructor
  · intro h
    obtain ⟨opened, h⟩ := h
    obtain ⟨engine, hengine, hobservability⟩ := bind_eq_ok_iff.1 h
    refine ⟨⟨engine, hengine⟩, (exists_openSection_iff observabilityFields).2 ?_⟩
    rw [← hnext hengine]
    exact (exists_openSection_iff observabilityFields).1 ⟨opened, hobservability⟩
  · intro h
    obtain ⟨⟨engine, hengine⟩, hobservability⟩ := h
    have hsection := (exists_openSection_iff observabilityFields).1 hobservability
    rw [← hnext hengine] at hsection
    obtain ⟨opened, hopened⟩ := (exists_openSection_iff observabilityFields).2 hsection
    exact ⟨opened, bind_eq_ok_iff.2 ⟨engine, hengine, hopened⟩⟩

end Phrasing.Settings
