import Phrasing.Proofs.Grammar.Acceptance
import Phrasing.Template.Basic

/-!
The parts between the quotes of a source, and the conditions and the tail that they make.
-/

namespace Phrasing.Source

open Grammar Outcome

variable [Hasher]

/-- Parts, plain and quoted by turns, with the conditions and the tail they stand for. -/
inductive Parts : List (List Char) → List Stamped → String → Prop
  | tail (plain : List Char) : Parts [plain] [] (String.ofList plain)
  | condition (plain : List Char) {body : List Char} {parts : List (List Char)}
      {branches : List Branch} {fallback tail : String} {conditions : List Stamped}
      (hne : branches ≠ []) (hbody : Body body branches fallback)
      (hparts : Parts parts conditions tail) :
      Parts (plain :: body :: parts)
        (stamped ⟨String.ofList plain, branches, some fallback⟩ :: conditions) tail

variable {parts : List (List Char)} {conditions : List Stamped} {tail : String} {offset : Nat}

theorem Parts.ne_nil (h : Parts parts conditions tail) : parts ≠ [] := by
  cases h <;> simp

/-- The conditions of a source are sound and have the stamp of their content. -/
theorem Parts.sound (h : Parts parts conditions tail) :
    ∀ s ∈ conditions, s = stamped s.condition ∧ s.condition.check = .ok () := by
  induction h with
  | tail => simp
  | condition plain hne hbody hparts ih =>
    exact List.forall_mem_cons.2 ⟨⟨rfl, (hbody.check_eq_ok_iff _).2 hne⟩, ih⟩

theorem parts_of_readParts (hne : parts ≠ [])
    (h : Template.readParts offset parts = .ok (conditions, tail)) :
    Parts parts conditions tail := by
  induction offset, parts using Template.readParts.induct generalizing conditions tail with
  | case1 => exact absurd rfl hne
  | case2 offset plain =>
    cases h
    exact .tail plain
  | case3 => cases h
  | case4 offset plain body parts hparts opening =>
    rename_i ih
    rw [Template.readParts] at h
    · obtain ⟨s, hquoted, h⟩ := bind_eq_ok_iff.1 h
      obtain ⟨⟨later, tail'⟩, hlater, h⟩ := bind_eq_ok_iff.1 h
      obtain ⟨branches, fallback, hbranches, hbody, rfl⟩ := readQuoted_iff.1 hquoted
      cases h
      exact .condition plain hbranches hbody (ih hparts hlater)
    · exact hparts

theorem Parts.readParts (h : Parts parts conditions tail) :
    Template.readParts offset parts = .ok (conditions, tail) := by
  induction h generalizing offset with
  | tail => rfl
  | condition plain hne hbody hparts ih =>
    rw [Template.readParts, readQuoted_iff.2 ⟨_, _, hne, hbody, rfl⟩]
    · refine bind_eq_ok_iff.2 ⟨_, rfl, ?_⟩
      exact bind_eq_ok_iff.2 ⟨_, ih, rfl⟩
    · exact hparts.ne_nil

theorem readSource_iff {source : String} :
    Template.readSource source = .ok (conditions, tail) ↔
      Parts (source.toList.splitOn '\'') conditions tail :=
  ⟨parts_of_readParts (List.splitOn_ne_nil _ _), Parts.readParts⟩

theorem compile_eq_map (source : String) : compile source =
    (Template.readSource source).map fun (conditions, tail) ↦
      ⟨source, conditions, tail, Template.indicesOf conditions tail, 1⟩ := by
  simp only [compile, Compiler.compile, Compiler.new]
  cases Template.readSource source with
  | error => rfl
  | ok => rfl

/-- A source compiles just when its parts make conditions and a tail. -/
theorem compile_iff {source : String} {t : Template} : compile source = .ok t ↔
    Parts (source.toList.splitOn '\'') t.conditions t.tail ∧
      t = ⟨source, t.conditions, t.tail, Template.indicesOf t.conditions t.tail, 1⟩ := by
  rw [← readSource_iff, compile_eq_map, map_eq_ok_iff]
  constructor
  · intro h
    obtain ⟨⟨conditions, tail⟩, hread, rfl⟩ := h
    exact ⟨hread, rfl⟩
  · intro h
    exact ⟨(t.conditions, t.tail), h.1, h.2.symm⟩

end Phrasing.Source
