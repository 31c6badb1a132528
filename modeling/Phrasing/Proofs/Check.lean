import Phrasing.Proofs.Grammar.Acceptance

/-!
What a successful check says of a condition, and that a checked condition has a fingerprint that is
not zero, whatever the digest.
-/

namespace Phrasing

open Text

namespace Condition

theorem checkBranches_eq_ok_iff {branches : List Branch} {index : Nat} :
    checkBranches index branches = .ok () ↔
      ∀ b ∈ branches, isBlankText b.result = false ∧ b.isMatched = true := by
  induction branches generalizing index with
  | nil => simp [checkBranches]
  | cons b branches ih =>
    rw [checkBranches, List.forall_mem_cons, ← @ih (index + 1)]
    split
    · next hblank => simp [hblank]
    · next hblank =>
      split
      · next hmatched => simp_all
      · next hmatched => simp_all

theorem check_eq_ok_iff {c : Condition} : c.check = .ok () ↔
    c.branches ≠ [] ∧ (∃ result, c.fallback = some result ∧ isBlankText result = false) ∧
      ∀ b ∈ c.branches, isBlankText b.result = false ∧ b.isMatched = true := by
  unfold check
  split
  · next hempty => simp_all
  · next hempty =>
    have hne : c.branches ≠ [] := by simpa using hempty
    split
    · next hnone => simp [hnone]
    · next result hsome =>
      split
      · next hblank => simp [hsome, hblank]
      · next hblank => simp [hsome, hblank, hne, checkBranches_eq_ok_iff]

theorem isIncomplete_of_check {c : Condition} (h : c.check = .ok ()) : c.isIncomplete = false := by
  obtain ⟨-, ⟨result, hfallback, hresult⟩, hbranches⟩ := check_eq_ok_iff.1 h
  simp only [isIncomplete, hfallback, hresult, Bool.false_or, List.any_eq_false]
  intro b hb
  simp [hbranches b hb]

variable [Hasher]

theorem fingerprint_eq_zero_iff {c : Condition} :
    c.fingerprint = 0 ↔ c.isIncomplete = true := by
  have hany : c.branches.any (fun b ↦ b.fingerprint == 0) =
      c.branches.any fun b ↦ isBlankText b.result := by
    congr 1
    funext b
    rw [Bool.eq_iff_iff, beq_iff_eq, Branch.fingerprint_eq_zero_iff]
  unfold fingerprint isIncomplete
  cases c.fallback with
  | none => simp
  | some result =>
    dsimp only
    rw [hany]
    split
    · next h => simpa using h
    · next h =>
      simp only [h, Bool.false_eq_true, iff_false]
      omega

theorem fingerprint_ne_zero_of_check {c : Condition} (h : c.check = .ok ()) :
    c.fingerprint ≠ 0 := by
  intro hzero
  rw [fingerprint_eq_zero_iff, isIncomplete_of_check h] at hzero
  cases hzero

end Condition

namespace Grammar

variable [Hasher] {c : Condition}

theorem isValidated_stamped (h : c.check = .ok ()) : (stamped c).isValidated = true := by
  have hne := Condition.fingerprint_ne_zero_of_check h
  simp [Stamped.isValidated, stamped, hne]

/-- A condition with a good stamp is not checked again and keeps its stamp. -/
theorem validate_stamped (h : c.check = .ok ()) : (stamped c).validate = .ok (stamped c) := by
  have hne := Condition.fingerprint_ne_zero_of_check h
  simp [Stamped.validate, stamped, hne]

end Grammar

end Phrasing
