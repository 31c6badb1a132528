import Phrasing.Condition.Workbench
import Phrasing.Proofs.BranchData
import Phrasing.Proofs.Check
import Phrasing.Proofs.DoubleOrder
import Phrasing.Proofs.Octets

/-!
Fingerprints tell conditions apart by their content, and by all of it. They differ from equality of
conditions in what equality of numbers leaves out: that zeros have a sign, and that what is not a
number equals nothing.
-/

namespace Phrasing

namespace Operand

def tag : Operand → Nat
  | pointer _ => 0
  | integer _ => 1
  | float _ => 2
  | text _ => 3
  | range .. => 4

variable {x y : Operand} {s t : List UInt8}

theorem words_eq_tag_cons (x : Operand) : x.words = .tag x.tag :: x.words.tail := by
  cases x <;> rfl

theorem fits_tag (x : Operand) : (Word.tag x.tag).Fits := by
  cases x <;> simp [tag, Word.Fits]

theorem forms_of_tag (h : x.tag = y.tag) : x.words.map Word.form = y.words.map Word.form := by
  cases x <;> cases y <;> first | rfl | cases h

theorem words_inj (h : x.words = y.words) : x = y := by
  cases x <;> cases y <;> simp_all [words]

/-- What is not a number has its own words for each sign. -/
example : (float (.nan (.quiet false))).words ≠ (float (.nan (.quiet true))).words := by decide

theorem fits_of_mem_words (hx : x.InLimits) : ∀ w ∈ x.words, w.Fits := by
  cases x with
  | pointer index =>
    exact List.forall_mem_cons.2 ⟨fits_tag (pointer index), List.forall_mem_singleton.2 hx⟩
  | integer n =>
    exact List.forall_mem_cons.2 ⟨fits_tag (integer n), List.forall_mem_singleton.2 hx⟩
  | float | text | range => simp [words, Word.Fits]

theorem octets_append_inj (hx : x.InLimits) (hy : y.InLimits)
    (h : x.words.flatMap Word.octets ++ s = y.words.flatMap Word.octets ++ t) : x = y ∧ s = t := by
  -- the tag comes first, and tells the forms of all the words
  have htag : x.tag = y.tag := by
    rw [words_eq_tag_cons x, words_eq_tag_cons y, List.flatMap_cons, List.flatMap_cons,
      List.append_assoc, List.append_assoc] at h
    exact Word.tag.inj (Word.octets_append_inj (fits_tag x) (fits_tag y) rfl h).1
  obtain ⟨hwords, hst⟩ := Word.flatMap_octets_append_inj (fits_of_mem_words hx)
    (fits_of_mem_words hy) (forms_of_tag htag) h
  exact ⟨words_inj hwords, hst⟩

theorem same_self_iff : x.same x = true ↔ ∀ y ∈ x.doubles, y.isNan = false := by
  cases x <;> simp [same, doubles, Binary64.eq_iff]

theorem eq_of_same (h : x.same y = true)
    (hzeros : ∀ p ∈ x.doubles.zip y.doubles, ¬p.1.Opposed p.2) : x = y := by
  cases x <;> cases y <;> simp_all [same, doubles, Binary64.eq_iff]

end Operand

namespace Branch

/-- What is spelled of a branch before its operand. -/
def headWords (b : Branch) : List Word := [.count b.target, .operator b.operator, .flag b.negate]

variable {b c : Branch}

theorem flatMap_octets_words (b : Branch) : b.words.flatMap Word.octets =
    b.headWords.flatMap Word.octets ++
      (b.operand.words.flatMap Word.octets ++ [Word.text b.result].flatMap Word.octets) := by
  simp only [words, headWords, List.flatMap_append, List.append_assoc]

theorem fits_of_mem_headWords (hb : b.InLimits) : ∀ w ∈ b.headWords, w.Fits := by
  simpa [headWords, Word.Fits] using hb.1

theorem octets_inj (hb : b.InLimits) (hc : c.InLimits)
    (h : b.words.flatMap Word.octets = c.words.flatMap Word.octets) : b = c := by
  rw [flatMap_octets_words, flatMap_octets_words] at h
  obtain ⟨hhead, h⟩ := Word.flatMap_octets_append_inj (fits_of_mem_headWords hb)
    (fits_of_mem_headWords hc) rfl h
  obtain ⟨hoperand, h⟩ := Operand.octets_append_inj hb.2 hc.2 h
  have hfits (s : String) : ∀ w ∈ [Word.text s], w.Fits := by simp [Word.Fits]
  have hresult := (Word.flatMap_octets_append_inj (s := []) (t := []) (hfits b.result)
    (hfits c.result) rfl (congrArg (· ++ []) h)).1
  obtain ⟨⟨target, operator, negate, operand⟩, result⟩ := b
  obtain ⟨⟨target', operator', negate', operand'⟩, result'⟩ := c
  simp_all [headWords]

end Branch

namespace Condition

def InLimits (c : Condition) : Prop :=
  c.branches.length < Numeral.indexLimit ∧ ∀ b ∈ c.branches, b.InLimits

/-- Something in the branches is not a number. -/
def HasNan (c : Condition) : Prop := ∃ b ∈ c.branches, ∃ x ∈ b.operand.doubles, x.isNan = true

/-- A zero in a branch of the one condition has the other sign in the same place of the other one. -/
def Opposed (c d : Condition) : Prop :=
  ∃ p ∈ c.branches.zip d.branches, ∃ q ∈ p.1.operand.doubles.zip p.2.operand.doubles,
    q.1.Opposed q.2

variable {c d : Condition}

theorem sameBranches_self_iff {bs : List Branch} :
    sameBranches bs bs = true ↔ ∀ b ∈ bs, ∀ x ∈ b.operand.doubles, x.isNan = false := by
  induction bs with
  | nil => simp [sameBranches]
  | cons b bs ih => simp [sameBranches, Branch.same, Comparison.same, Operand.same_self_iff, ih]

theorem eq_of_sameBranches {bs cs : List Branch} (h : sameBranches bs cs = true)
    (hzeros : ∀ p ∈ bs.zip cs, ∀ q ∈ p.1.operand.doubles.zip p.2.operand.doubles,
      ¬q.1.Opposed q.2) : bs = cs := by
  induction bs generalizing cs with
  | nil =>
    cases cs with
    | nil => rfl
    | cons c cs => cases h
  | cons b bs ih =>
    cases cs with
    | nil => cases h
    | cons c cs =>
      rw [List.zip_cons_cons] at hzeros
      obtain ⟨hfirst, hlater⟩ := List.forall_mem_cons.1 hzeros
      rw [sameBranches, Bool.and_eq_true] at h
      obtain ⟨⟨target, operator, negate, operand⟩, result⟩ := b
      obtain ⟨⟨target', operator', negate', operand'⟩, result'⟩ := c
      simp only [Branch.same, Comparison.same, Bool.and_eq_true, beq_iff_eq] at h
      obtain ⟨⟨⟨⟨⟨rfl, rfl⟩, rfl⟩, hoperand⟩, rfl⟩, hbranches⟩ := h
      obtain rfl := Operand.eq_of_same hoperand hfirst
      rw [ih hbranches hlater]

theorem same_self_iff : c.same c = true ↔ ¬c.HasNan := by
  simp [same, sameBranches_self_iff, HasNan]

theorem eq_of_mem_zip_self {α : Type} {l : List α} {p : α × α} (h : p ∈ l.zip l) : p.1 = p.2 := by
  rw [List.zip_eq_zipWith, List.zipWith_self] at h
  obtain ⟨a, -, rfl⟩ := List.mem_map.1 h
  rfl

/-- Conditions that are equal have the same content, unless a zero has another sign in it. -/
theorem eq_iff_of_same (h : c.same d = true) : c = d ↔ ¬c.Opposed d := by
  constructor
  · rintro rfl ⟨p, hp, q, hq, hopposed⟩
    rw [eq_of_mem_zip_self hp] at hq
    rw [eq_of_mem_zip_self hq] at hopposed
    exact Binary64.not_opposed_self q.2 hopposed
  · intro hzeros
    obtain ⟨lead, branches, fallback⟩ := c
    obtain ⟨lead', branches', fallback'⟩ := d
    simp only [same, Bool.and_eq_true, beq_iff_eq] at h
    obtain ⟨⟨rfl, hbranches⟩, rfl⟩ := h
    rw [eq_of_sameBranches hbranches fun p hp q hq hopposed ↦ hzeros ⟨p, hp, q, hq, hopposed⟩]

end Condition

variable [Hasher]

/-- The digests of some sequences have 64 bits, and two of them are the same only when the octets of
the sequences are, also when zero is replaced by one. -/
structure Hasher.Separates (sequences : List (List Word)) : Prop where
  digest_lt : ∀ s ∈ sequences, Hasher.digest s < Numeral.indexLimit
  octets_eq : ∀ s ∈ sequences, ∀ t ∈ sequences, max 1 (Hasher.digest s) = max 1 (Hasher.digest t) →
    s.flatMap Word.octets = t.flatMap Word.octets

namespace Branch

variable {b c : Branch} {sequences : List (List Word)}

theorem fingerprint_of_ne_zero (h : b.fingerprint ≠ 0) :
    b.fingerprint = max 1 (Hasher.digest b.words) := by
  unfold fingerprint at h ⊢
  split
  · next hblank => exact absurd (if_pos hblank) h
  · rfl

theorem fingerprint_lt (hseparates : Hasher.Separates sequences) (hb : b.words ∈ sequences) :
    b.fingerprint < Numeral.indexLimit := by
  unfold fingerprint
  split
  · decide
  · exact Nat.max_lt.2 ⟨by decide, hseparates.digest_lt _ hb⟩

theorem eq_of_fingerprint (hseparates : Hasher.Separates sequences) (hb : b.InLimits)
    (hc : c.InLimits) (hbmem : b.words ∈ sequences) (hcmem : c.words ∈ sequences)
    (hne : b.fingerprint ≠ 0) (h : b.fingerprint = c.fingerprint) : b = c := by
  have hdigests := h
  rw [fingerprint_of_ne_zero hne, fingerprint_of_ne_zero (h ▸ hne)] at hdigests
  exact octets_inj hb hc (hseparates.octets_eq _ hbmem _ hcmem hdigests)

end Branch

namespace Condition

/-- The sequences that are digested for the fingerprint of a condition. -/
def written (c : Condition) : List (List Word) :=
  c.branches.map Branch.words ++ c.fallback.toList.map c.words

variable {c d : Condition} {f g : String}

theorem words_mem_written {b : Branch} (hb : b ∈ c.branches) : b.words ∈ c.written :=
  List.mem_append_left _ (List.mem_map_of_mem hb)

theorem exists_of_fingerprint_ne_zero (h : c.fingerprint ≠ 0) : ∃ f, c.fallback = some f ∧
    c.fingerprint = max 1 (Hasher.digest (c.words f)) ∧ ∀ b ∈ c.branches, b.fingerprint ≠ 0 := by
  unfold fingerprint at h ⊢
  cases hfallback : c.fallback with
  | none =>
    rw [hfallback] at h
    exact absurd rfl h
  | some f =>
    rw [hfallback] at h
    dsimp only at h ⊢
    split at h
    · exact absurd rfl h
    · next hcomplete =>
      refine ⟨f, rfl, if_neg hcomplete, ?_⟩
      simp only [Bool.or_eq_true, not_or, List.any_eq_true, not_exists, not_and] at hcomplete
      exact fun b hb hzero ↦ hcomplete.2 b hb (by simp [hzero])

/-- What is spelled of a condition after the number of its branches. -/
def restWords (c : Condition) (fallback : String) : List Word :=
  (c.branches.map Branch.fingerprint).map Word.digest ++ [.text fallback, .text c.lead]

theorem words_eq_count_cons (c : Condition) (f : String) :
    c.words f = .count c.branches.length :: c.restWords f := by
  rw [restWords, List.map_map]
  rfl

theorem forms_restWords (c : Condition) (f : String) : (c.restWords f).map Word.form =
    List.replicate c.branches.length 1 ++ [7, 7] := by
  rw [restWords, List.map_append, List.map_map, List.map_map]
  exact congrArg (· ++ _) List.map_const'

theorem fits_of_mem_restWords (h : ∀ b ∈ c.branches, b.fingerprint < Numeral.indexLimit) :
    ∀ w ∈ c.restWords f, w.Fits := by
  simpa [restWords, Word.Fits, or_imp, forall_and] using h

theorem octets_inj (hc : c.branches.length < Numeral.indexLimit)
    (hd : d.branches.length < Numeral.indexLimit)
    (hcbranches : ∀ b ∈ c.branches, b.fingerprint < Numeral.indexLimit)
    (hdbranches : ∀ b ∈ d.branches, b.fingerprint < Numeral.indexLimit)
    (h : (c.words f).flatMap Word.octets = (d.words g).flatMap Word.octets) :
    c.branches.map Branch.fingerprint = d.branches.map Branch.fingerprint ∧ f = g ∧
      c.lead = d.lead := by
  rw [words_eq_count_cons, words_eq_count_cons, List.flatMap_cons, List.flatMap_cons] at h
  obtain ⟨hcount, h⟩ :=
    Word.octets_append_inj (u := .count _) (v := .count _) hc hd rfl h
  have hlength : c.branches.length = d.branches.length := Word.count.inj hcount
  have hforms : (c.restWords f).map Word.form = (d.restWords g).map Word.form := by
    rw [forms_restWords, forms_restWords, hlength]
  have hrest := (Word.flatMap_octets_append_inj (s := []) (t := [])
    (fits_of_mem_restWords hcbranches) (fits_of_mem_restWords hdbranches) hforms
    (congrArg (· ++ []) h)).1
  obtain ⟨hdigests, htexts⟩ := List.append_inj hrest (by simp [hlength])
  exact ⟨(List.map_inj_right fun _ _ ↦ Word.digest.inj).1 hdigests, by simpa using htexts⟩

theorem eq_of_map_fingerprint {bs cs : List Branch}
    (hinj : ∀ b ∈ bs, ∀ c ∈ cs, b.fingerprint = c.fingerprint → b = c)
    (h : bs.map Branch.fingerprint = cs.map Branch.fingerprint) : bs = cs := by
  induction bs generalizing cs with
  | nil => exact (List.map_eq_nil_iff.1 h.symm).symm
  | cons b bs ih =>
    cases cs with
    | nil => cases h
    | cons c cs =>
      obtain ⟨hfirst, hrest⟩ := List.cons.inj h
      have hbs := ih (fun b hb c hc ↦ hinj b (by simp [hb]) c (by simp [hc])) hrest
      rw [hinj b (by simp) c (by simp) hfirst, hbs]

theorem eq_of_fingerprint (hc : c.InLimits) (hd : d.InLimits)
    (hseparates : Hasher.Separates (c.written ++ d.written)) (hne : c.fingerprint ≠ 0)
    (h : c.fingerprint = d.fingerprint) : c = d := by
  obtain ⟨f, hf, hcdigest, hcbranches⟩ := exists_of_fingerprint_ne_zero hne
  obtain ⟨g, hg, hddigest, -⟩ := exists_of_fingerprint_ne_zero (h ▸ hne)
  have hcmem : c.words f ∈ c.written ++ d.written := by simp [written, hf]
  have hdmem : d.words g ∈ c.written ++ d.written := by simp [written, hg]
  have hcbranch : ∀ b ∈ c.branches, b.words ∈ c.written ++ d.written :=
    fun b hb ↦ List.mem_append_left _ (words_mem_written hb)
  have hdbranch : ∀ b ∈ d.branches, b.words ∈ c.written ++ d.written :=
    fun b hb ↦ List.mem_append_right _ (words_mem_written hb)
  -- equal digests of the conditions give the digests of the branches, and these the branches
  rw [hcdigest, hddigest] at h
  obtain ⟨hfingerprints, rfl, hlead⟩ := octets_inj hc.1 hd.1
    (fun b hb ↦ Branch.fingerprint_lt hseparates (hcbranch b hb))
    (fun b hb ↦ Branch.fingerprint_lt hseparates (hdbranch b hb))
    (hseparates.octets_eq _ hcmem _ hdmem h)
  have hbranches : c.branches = d.branches := by
    refine eq_of_map_fingerprint (fun b hb e he ↦ ?_) hfingerprints
    exact Branch.eq_of_fingerprint hseparates (hc.2 b hb) (hd.2 e he) (hcbranch b hb)
      (hdbranch e he) (hcbranches b hb)
  obtain ⟨lead, branches, fallback⟩ := c
  obtain ⟨lead', branches', fallback'⟩ := d
  simp_all

/-- The fingerprint of a condition is zero just when the condition is incomplete, and other ones are
the same just when the contents are. Equal fingerprints and equality of conditions differ just in what
is not a number and in the signs of zeros, and stamps matter to neither. -/
theorem fingerprint_separates (c d : Condition) :
    (c.fingerprint = 0 ↔ c.fallback = none ∨
      (∃ fallback, c.fallback = some fallback ∧ Text.isBlankText fallback = true) ∨
      ∃ b ∈ c.branches, Text.isBlankText b.result = true) ∧
    (c.InLimits → d.InLimits → Hasher.Separates (c.written ++ d.written) →
      c.fingerprint ≠ 0 → d.fingerprint ≠ 0 →
      (c.fingerprint = d.fingerprint ↔ c = d) ∧
      (c.fingerprint = d.fingerprint → (c.same d = false ↔ c.HasNan)) ∧
      (c.same d = true → (c.fingerprint ≠ d.fingerprint ↔ c.Opposed d))) ∧
    ∀ stamp stamp', (Workbench.run ⟨⟨c, stamp⟩, ⟨d, stamp'⟩⟩ .compare).1 =
      .ok (.comparison (c.same d) (c.fingerprint == d.fingerprint)) := by
  refine ⟨?_, fun hc hd hseparates hcne hdne ↦ ?_, fun _ _ ↦ rfl⟩
  · rw [fingerprint_eq_zero_iff, isIncomplete, Bool.or_eq_true, List.any_eq_true]
    cases c.fallback <;> simp
  · have hiff : c.fingerprint = d.fingerprint ↔ c = d :=
      ⟨eq_of_fingerprint hc hd hseparates hcne, fun h ↦ congrArg fingerprint h⟩
    refine ⟨hiff, fun h ↦ ?_, fun h ↦ ?_⟩
    · rw [← hiff.1 h, ← Bool.not_eq_true, same_self_iff, Classical.not_not]
    · rw [ne_eq, hiff, eq_iff_of_same h, Classical.not_not]

omit [Hasher] in
theorem fingerprint_separates_zeros : ∃ c d : Condition, c.InLimits ∧ d.InLimits ∧
    @Hasher.Separates Digest.hasher (@written Digest.hasher c ++ @written Digest.hasher d) ∧
    @fingerprint Digest.hasher c ≠ 0 ∧ @fingerprint Digest.hasher d ≠ 0 ∧
    (@fingerprint Digest.hasher c = @fingerprint Digest.hasher d ↔ c = d) ∧
    c.same d = true ∧ c.Opposed d ∧
    (@fingerprint Digest.hasher c ≠ @fingerprint Digest.hasher d ↔ c.Opposed d) := by
  let _ := Digest.hasher
  let zero (negative : Bool) : Condition :=
    ⟨"left: ", [⟨⟨0, .equal, false, .float (.finite (.zero negative))⟩, "none"⟩], some "some"⟩
  have hlimits (negative : Bool) : (zero negative).InLimits :=
    ⟨(by decide : 1 < Numeral.indexLimit),
      List.forall_mem_singleton.2 ⟨(by decide : 0 < Numeral.indexLimit), trivial⟩⟩
  have hseparates : Hasher.Separates ((zero false).written ++ (zero true).written) :=
    ⟨by decide +kernel, by decide +kernel⟩
  have hne : (zero false).fingerprint ≠ 0 ∧ (zero true).fingerprint ≠ 0 := by decide +kernel
  have hsame : (zero false).same (zero true) = true := by decide +kernel
  have hopposed : (zero false).Opposed (zero true) :=
    ⟨_, .head _, _, .head _, false, rfl, rfl⟩
  obtain ⟨hiff, -, hzeros⟩ := (fingerprint_separates (zero false) (zero true)).2.1 (hlimits _)
    (hlimits _) hseparates hne.1 hne.2
  exact ⟨_, _, hlimits _, hlimits _, hseparates, hne.1, hne.2, hiff, hsame, hopposed, hzeros hsame⟩

end Condition

end Phrasing
