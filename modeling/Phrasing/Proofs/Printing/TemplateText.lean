import Mathlib.Data.List.Forall2
import Phrasing.Condition.Digest
import Phrasing.Proofs.Printing.BodyText
import Phrasing.Proofs.Source

/-!
Printing undoes reading: the conditions and the tail of a template, written one after the other,
compile to the same conditions and tail just when no number in them is infinite.
-/

namespace Phrasing

namespace Template

/-- No number of a condition is infinite. -/
def IsFinite (conditions : List Stamped) : Prop :=
  ∀ s ∈ conditions, ∀ b ∈ s.condition.branches, b.operand.IsFinite

instance (conditions : List Stamped) : Decidable (IsFinite conditions) :=
  inferInstanceAs (Decidable (∀ s ∈ conditions, ∀ b ∈ s.condition.branches, b.operand.IsFinite))

/-- Conditions and the tail after them as they are written. -/
def write (conditions : List Stamped) (tail : String) : List Char :=
  conditions.flatMap (fun s ↦ s.condition.write) ++ tail.toList

/-- The conditions are equal one by one, floats as numbers. -/
def Same (conditions conditions' : List Stamped) : Prop :=
  List.Forall₂ (fun s s' ↦ s.condition.same s'.condition = true) conditions conditions'

end Template

namespace Source

open Grammar

/-- The parts of written conditions and the tail after them. -/
def writtenParts : List Stamped → String → List (List Char)
  | [], tail => [tail.toList]
  | s :: conditions, tail =>
    s.condition.lead.toList :: written s.condition.branches (s.condition.fallback.getD "") ::
      writtenParts conditions tail

theorem not_mem_of_mem_splitOn {α : Type} [BEq α] [LawfulBEq α] {a : α} {s part : List α}
    (h : part ∈ s.splitOn a) : a ∉ part := by
  induction s generalizing part with
  | nil =>
    rw [List.splitOn_nil, List.mem_singleton] at h
    simp [h]
  | cons x s ih =>
    rw [List.splitOn_cons_eq_if_modifyHead] at h
    split at h
    · rcases List.mem_cons.1 h with rfl | h
      · simp
      · exact ih h
    · next hx =>
      obtain ⟨first, later, hsplit⟩ := List.exists_cons_of_ne_nil (List.splitOn_ne_nil a s)
      rw [hsplit, List.modifyHead_cons] at h
      rcases List.mem_cons.1 h with rfl | h
      · have hfirst := @ih first (by simp [hsplit])
        have hne : a ≠ x := fun hax ↦ hx (by simp [hax])
        simp [hne, hfirst]
      · exact ih (by simp [hsplit, h])

variable [Hasher] {parts : List (List Char)} {conditions conditions' : List Stamped}
  {tail tail' source : String} {t : Template}

theorem Parts.splitOn_write (h : Parts parts conditions tail)
    (hquote : ∀ part ∈ parts, '\'' ∉ part) :
    (Template.write conditions tail).splitOn '\'' = writtenParts conditions tail := by
  induction h with
  | tail plain =>
    have hplain := hquote plain (by simp)
    rw [writtenParts, Template.write, List.flatMap_nil, List.nil_append]
    exact List.splitOn_eq_singleton (by rwa [String.toList_ofList])
  | @condition plain body parts branches fallback tail conditions hne hbody hparts ih =>
    obtain ⟨hplain, hquote⟩ := List.forall_mem_cons.1 hquote
    obtain ⟨hbodyquote, hlater⟩ := List.forall_mem_cons.1 hquote
    have hwritten := hbody.quote_not_mem_written hbodyquote
    have htext : Template.write (stamped ⟨String.ofList plain, branches, some fallback⟩ :: conditions) tail =
        plain ++ '\'' :: (written branches fallback ++ '\'' :: Template.write conditions tail) := by
      simp [Template.write, Condition.write, written, stamped]
    rw [htext, List.splitOn_append_cons_self_of_not_mem hplain,
      List.splitOn_append_cons_self_of_not_mem hwritten, ih hlater]
    simp [writtenParts, stamped]

theorem Parts.written (h : Parts parts conditions tail) (hfinite : Template.IsFinite conditions) :
    Parts (writtenParts conditions tail) conditions tail := by
  induction h with
  | tail plain =>
    rw [writtenParts, String.toList_ofList]
    exact .tail plain
  | @condition plain body parts branches fallback tail conditions hne hbody hparts ih =>
    obtain ⟨hfirst, hlater⟩ := List.forall_mem_cons.1 hfinite
    have hparts := Parts.condition plain hne (hbody.written hfirst) (ih hlater)
    rw [writtenParts]
    simp only [stamped, String.toList_ofList, Option.getD_some]
    exact hparts

theorem Parts.same_self (h : Parts parts conditions tail) :
    Template.Same conditions conditions := by
  induction h with
  | tail => exact .nil
  | condition plain hne hbody hparts ih =>
    refine .cons ?_ ih
    simp [Condition.same, stamped, hbody.same_self]

/-- If what is written of conditions is read as equal conditions, they are finite. -/
theorem Parts.isFinite_of_same (h : Parts parts conditions tail)
    (h' : Parts (writtenParts conditions tail) conditions' tail')
    (hsame : Template.Same conditions conditions') : Template.IsFinite conditions := by
  induction h generalizing conditions' with
  | tail => simp [Template.IsFinite]
  | @condition plain body parts branches fallback tail conditions hne hbody hparts ih =>
    rw [writtenParts] at h'
    cases h' with
    | @condition plain' body' parts' branches' fallback' _ later' hne' hbody' hparts' =>
      obtain ⟨hfirst, hlater⟩ := List.forall₂_cons.1 hsame
      refine List.forall_mem_cons.2 ⟨?_, ih hparts' hlater⟩
      simp only [Condition.same, Bool.and_eq_true] at hfirst
      exact hbody.isFinite_of_same hbody' hfirst.1.2

/-- What is written of a compiled template compiles to equal conditions and the same tail just when
no number in it is infinite; it is then the same template but for its source. -/
theorem compile_write_iff (h : compile source = .ok t) :
    ((∃ t', compile (String.ofList (Template.write t.conditions t.tail)) = .ok t' ∧
      Template.Same t.conditions t'.conditions ∧ t'.tail = t.tail) ↔
      Template.IsFinite t.conditions) ∧
    (Template.IsFinite t.conditions →
      compile (String.ofList (Template.write t.conditions t.tail)) =
        .ok { t with source := String.ofList (Template.write t.conditions t.tail) }) := by
  obtain ⟨hparts, ht⟩ := compile_iff.1 h
  have hsplit := hparts.splitOn_write fun part ↦ not_mem_of_mem_splitOn
  have hwritten : Template.IsFinite t.conditions →
      compile (String.ofList (Template.write t.conditions t.tail)) =
        .ok { t with source := String.ofList (Template.write t.conditions t.tail) } := by
    intro hfinite
    refine compile_iff.2 ⟨?_, ?_⟩
    · rw [String.toList_ofList, hsplit]
      exact hparts.written hfinite
    · rw [ht]
  refine ⟨⟨fun hexists ↦ ?_, fun hfinite ↦ ?_⟩, hwritten⟩
  · obtain ⟨t', ht', hsame, -⟩ := hexists
    have hparts' := (compile_iff.1 ht').1
    rw [String.toList_ofList, hsplit] at hparts'
    exact hparts.isFinite_of_same hparts' hsame
  · exact ⟨_, hwritten hfinite, hparts.same_self, rfl⟩

omit [Hasher] in
theorem compile_write_iff_bounds :
    (∃ t, @compile Digest.hasher "{0} '{0}=1.5:half|{0}!~2..30: some |*:many' left" = .ok t ∧
      Template.IsFinite t.conditions ∧
      @compile Digest.hasher (String.ofList (Template.write t.conditions t.tail)) =
        .ok { t with source := String.ofList (Template.write t.conditions t.tail) }) ∧
    ∃ t, @compile Digest.hasher "'{0}<1e999:little|*:much'" = .ok t ∧
      ¬∃ t', @compile Digest.hasher (String.ofList (Template.write t.conditions t.tail)) = .ok t' ∧
        Template.Same t.conditions t'.conditions ∧ t'.tail = t.tail := by
  let _ := Digest.hasher
  have hfinite : (compile "{0} '{0}=1.5:half|{0}!~2..30: some |*:many' left").toOption.any
      fun t ↦ Template.IsFinite t.conditions := by decide +kernel
  have hinfinite : (compile "'{0}<1e999:little|*:much'").toOption.any
      fun t ↦ ¬Template.IsFinite t.conditions := by decide +kernel
  constructor
  · obtain ⟨t, ht, hfinite⟩ := (Option.any_eq_true _ _).1 hfinite
    have h := Outcome.toOption_eq_some_iff.1 ht
    have hfinite := of_decide_eq_true hfinite
    exact ⟨t, h, hfinite, (compile_write_iff h).2 hfinite⟩
  · obtain ⟨t, ht, hinfinite⟩ := (Option.any_eq_true _ _).1 hinfinite
    have h := Outcome.toOption_eq_some_iff.1 ht
    have hinfinite := of_decide_eq_true hinfinite
    exact ⟨t, h, fun hexists ↦ hinfinite ((compile_write_iff h).1.1 hexists)⟩

end Source

end Phrasing
