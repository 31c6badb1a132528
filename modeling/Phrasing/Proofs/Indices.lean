import Phrasing.Template.Basic

/-!
The indices of a template, and the number of arguments that reaches them all.
-/

namespace Phrasing.Template

theorem pairwise_eraseDups (ns : List Nat) (h : ns.Pairwise (· ≤ ·)) :
    ns.eraseDups.Pairwise (· ≤ ·) := by
  induction hlen : ns.length using Nat.strongRecOn generalizing ns with
  | ind k ih =>
    cases ns with
    | nil => simp
    | cons n ns =>
      obtain ⟨hn, hns⟩ := List.pairwise_cons.1 h
      have hlt : (ns.filter fun m ↦ !m == n).length < k := by
        have hle := List.length_filter_le (fun m ↦ !m == n) ns
        rw [List.length_cons] at hlen
        omega
      rw [List.eraseDups_cons]
      refine List.pairwise_cons.2 ⟨?_, ih _ hlt _ (hns.filter _) rfl⟩
      intro m hm
      exact hn m (List.mem_filter.1 (List.mem_eraseDups.1 hm)).1

theorem mem_ascending {ns : List Nat} {i : Nat} : i ∈ ascending ns ↔ i ∈ ns := by
  rw [ascending, List.mem_eraseDups, List.mem_mergeSort]

theorem pairwise_ascending (ns : List Nat) : (ascending ns).Pairwise (· ≤ ·) := by
  apply pairwise_eraseDups
  have hsorted := @List.pairwise_mergeSort Nat (fun a b ↦ decide (a ≤ b))
    (by simpa using fun a b c ↦ Nat.le_trans) (by simpa using Nat.le_total) ns
  simpa using hsorted

theorem le_getLast? {ns : List Nat} {i greatest : Nat} (h : ns.Pairwise (· ≤ ·)) (hi : i ∈ ns)
    (hlast : ns.getLast? = some greatest) : i ≤ greatest := by
  obtain ⟨before, rfl⟩ := List.getLast?_eq_some_iff.1 hlast
  rcases List.mem_append.1 hi with hi | hi
  · exact (List.pairwise_append.1 h).2.2 i hi greatest (by simp)
  · exact Nat.le_of_eq (List.mem_singleton.1 hi)

/-- As many arguments as a template asks for reach all its indices, unless there are `lastIndex`. -/
theorem lt_of_mem_indices {t : Template} {i n : Nat} (h : t.indices.Pairwise (· ≤ ·))
    (hi : i ∈ t.indices) (hn : t.requiredArgs ≤ n) (hlast : n < Numeral.lastIndex) : i < n := by
  unfold requiredArgs at hn
  split at hn
  · next hnone =>
    rw [List.getLast?_eq_none_iff.1 hnone] at hi
    cases hi
  · next greatest hsome =>
    have hle := le_getLast? h hi hsome
    omega

end Phrasing.Template
