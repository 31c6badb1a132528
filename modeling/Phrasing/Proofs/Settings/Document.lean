import Phrasing.Proofs.Settings.Overlay
import Phrasing.Settings.Toml.Document

/-!
The reader of TOML is lawful: the tree of a text has no name twice in a table, since each line of the
text changes the tree at one path.
-/

namespace Phrasing.Settings.Toml

variable {s rest : List Char} {value : Tree} {depth : Nat}

theorem isTable_of_word? (h : word? s = some value) : value.isTable = false := by
  unfold word? at h
  split at h
  · cases h
    rfl
  split at h
  · cases h
    rfl
  cases hinteger : integer? s with
  | some n =>
    rw [hinteger] at h
    cases h
    rfl
  | none =>
    rw [hinteger] at h
    obtain ⟨x, -, rfl⟩ := Option.map_eq_some_iff.1 h
    rfl

theorem isTable_of_scalar? (h : scalar? s = some (value, rest)) : value.isTable = false := by
  unfold scalar? at h
  split at h
  · cases h
    rfl
  · obtain ⟨word, hword, heq⟩ := Option.map_eq_some_iff.1 h
    obtain ⟨rfl, -⟩ := Prod.mk.inj heq
    exact isTable_of_word? hword

/-- No table is written as a value. -/
theorem isTable_of_value? (h : value? depth s = some (value, rest)) : value.isTable = false := by
  unfold value? at h
  split at h
  · obtain ⟨more, -, heq⟩ := Option.map_eq_some_iff.1 h
    obtain ⟨rfl, -⟩ := Prod.mk.inj heq
    rfl
  · exact isTable_of_scalar? h

namespace Document

variable {d d' : Document} {path names : List String} {origin : Origin} {allows : Origin → Bool}

theorem distinct_ensure (hd : d.tree.Distinct) (h : d.ensure path origin allows = some d') :
    d'.tree.Distinct := by
  unfold ensure at h
  split at h
  · cases h
    exact hd.alterAt fun _ _ ↦ .empty
  · split at h <;> cases h
    exact hd
  · cases h

theorem distinct_ensureBetween (hd : d.tree.Distinct)
    (h : d.ensureBetween origin allows path names = some d') : d'.tree.Distinct := by
  induction names generalizing d path with
  | nil =>
    cases h
    exact hd
  | cons name names ih =>
    cases names with
    | nil =>
      cases h
      exact hd
    | cons next names =>
      obtain ⟨d₁, h₁, h⟩ := Option.bind_eq_some_iff.1 h
      exact ih (distinct_ensure hd h₁) h

theorem distinct_openTable (hd : d.tree.Distinct) (h : d.openTable path = some d') :
    d'.tree.Distinct := by
  obtain ⟨d₁, h₁, h⟩ := Option.bind_eq_some_iff.1 h
  obtain ⟨d₂, h₂, h⟩ := Option.bind_eq_some_iff.1 h
  cases h
  have hd₂ := distinct_ensure (distinct_ensureBetween hd h₁) h₂
  exact hd₂

theorem distinct_set (hd : d.tree.Distinct) (hvalue : value.isTable = false)
    (h : d.set path value = some d') : d'.tree.Distinct := by
  obtain ⟨d₁, h₁, h⟩ := Option.bind_eq_some_iff.1 h
  split at h
  · cases h
  split at h
  · cases h
  · cases h
    exact (distinct_ensureBetween hd h₁).alterAt fun _ _ ↦ .value hvalue

theorem distinct_readHeader (hd : d.tree.Distinct) (h : d.readHeader s = some (d', rest)) :
    d'.tree.Distinct := by
  obtain ⟨⟨path, more⟩, -, h⟩ := Option.bind_eq_some_iff.1 h
  dsimp only at h
  split at h
  · obtain ⟨d₁, h₁, h⟩ := Option.bind_eq_some_iff.1 h
    obtain ⟨last, -, h⟩ := Option.bind_eq_some_iff.1 h
    cases h
    exact distinct_openTable hd h₁
  · cases h

theorem distinct_readKey (hd : d.tree.Distinct) (h : d.readKey s = some (d', rest)) :
    d'.tree.Distinct := by
  obtain ⟨⟨path, more⟩, -, h⟩ := Option.bind_eq_some_iff.1 h
  dsimp only at h
  split at h
  · obtain ⟨⟨value, more⟩, hvalue, h⟩ := Option.bind_eq_some_iff.1 h
    obtain ⟨d₁, h₁, h⟩ := Option.bind_eq_some_iff.1 h
    obtain ⟨last, -, h⟩ := Option.bind_eq_some_iff.1 h
    cases h
    exact distinct_set hd (isTable_of_value? hvalue) h₁
  · cases h

theorem distinct_readLines {n : Nat} (hd : d.tree.Distinct) (h : d.readLines n s = some d') :
    d'.tree.Distinct := by
  induction n generalizing d s with
  | zero =>
    rw [readLines] at h
    split at h <;> cases h
    exact hd
  | succ n ih =>
    rw [readLines] at h
    split at h
    · cases h
      exact hd
    · exact ih hd h
    · dsimp only at h
      split at h
      · obtain ⟨⟨d₁, rest⟩, h₁, h⟩ := Option.bind_eq_some_iff.1 h
        exact ih (distinct_readHeader hd h₁) h
      · obtain ⟨⟨d₁, rest⟩, h₁, h⟩ := Option.bind_eq_some_iff.1 h
        exact ih (distinct_readKey hd h₁) h

end Document

theorem lawful : FileReader.Lawful where
  distinct h := by
    obtain ⟨d, hd, rfl⟩ := Option.map_eq_some_iff.1 h
    have hentries := (Document.distinct_readLines .empty hd).of_entries
    exact .table hentries.1 hentries.2

end Phrasing.Settings.Toml
