import Phrasing.Proofs.Settings.Precedence

/-!
Two trees of settings that differ in one setting, which the one tree has a value for. They still do
when the same is laid over both, and what is read of them differs in that setting only, save where the
value takes the place of a list.
-/

namespace Phrasing.Settings

variable {setting : Setting} {value plain tree : Tree} {entry : String × Tree}
  {entries : List (String × Tree)} {s : Settings}

/-- What stands under a first name is changed by what stands there only. -/
theorem Tree.get?_put_congr {tree plain : Tree} {name : String}
    (h : tree.get? [name] = plain.get? [name]) (entry : String × Tree) :
    (tree.put entry).get? [name] = (plain.put entry).get? [name] := by
  obtain ⟨key, value⟩ := entry
  obtain ⟨first, route, hroute⟩ := Route.ofKey_cons key
  rw [get?_singleton, get?_singleton] at h ⊢
  rw [put, put, overlayAt, overlayAt, hroute, alterAt, alterAt, lookup_alter, lookup_alter]
  split
  · next hfirst => rw [← eq_of_beq hfirst, h]
  · exact h

theorem Tree.get?_put_of_ne {name first : String} {key : String} {route : Route} (plain value : Tree)
    (hroute : Route.ofKey key = .name first :: route) (hname : name ≠ first) :
    (plain.put (key, value)).get? [name] = plain.get? [name] := by
  rw [get?_singleton, get?_singleton, put, overlayAt, hroute, alterAt, lookup_alter,
    if_neg (by simp [hname])]

namespace Setting

/-- The key that gives a setting. -/
def key : Setting → String
  | serviceName => "service_name"
  | environment => "environment"
  | strict => "engine.strict_numeric_kinds"
  | trace => "engine.trace_enabled"
  | logLevel => "observability.log_level"
  | logFormat => "observability.log_format"

theorem ofKey_key (setting : Setting) :
    ∃ route, Route.ofKey setting.key = .name setting.first :: route := by
  cases setting <;> exact ⟨_, rfl⟩

theorem get?_entryTree_key (setting other : Setting) (value : Tree) :
    (entryTree (setting.key, value)).get? other.path =
      if other = setting then some value else none := by
  cases setting <;> cases other <;> rfl

theorem admissibleEntry_key (setting : Setting) (h : value.isTable = false) :
    AdmissibleEntry (setting.key, value) where
  distinct := .value h
  orderly := by
    refine ⟨fun name hname found hfound ↦ ?_, fun other found hfound ↦ ?_⟩
    · simp only [sections, List.mem_cons, List.not_mem_nil, or_false] at hname
      rcases hname with rfl | rfl <;> cases setting <;> cases hfound <;> rfl
    · rw [get?_entryTree_key] at hfound
      split at hfound <;> cases hfound
      exact h

/-- The two settings are fields of one section, and that is a list. -/
def ListedWith (tree : Tree) (setting other : Setting) : Prop :=
  other.first = setting.first ∧ ∃ items, tree.get? [setting.first] = some (.list items)

/-- A setting is found at its path, unless its section is a list. -/
theorem found?_eq_get? (h : setting.first ∈ sections →
    ∀ items, tree.get? [setting.first] ≠ some (.list items)) :
    setting.found? tree = tree.get? setting.path := by
  cases setting with
  | serviceName | environment => exact Option.bind_fun_some _
  | strict | trace | logLevel | logFormat =>
    exact Tree.field?_of_not_list (h (by simp [first, sections])) _ _

theorem get?_path_of_list {items : List Tree} (hfirst : setting.path ≠ [setting.first])
    (h : tree.get? [setting.first] = some (.list items)) : tree.get? setting.path = none := by
  have hpair (name : String) : tree.get? [setting.first, name] = none := by
    rw [Tree.get?_pair, h]
    rfl
  cases setting with
  | serviceName | environment => exact absurd rfl hfirst
  | strict | trace | logLevel | logFormat => exact hpair _

theorem path_ne_of_first_eq {other : Setting} (hother : other ≠ setting)
    (hfirst : other.first = setting.first) :
    setting.first ∈ sections ∧ other.path ≠ [other.first] := by
  cases setting <;> cases other <;> simp_all [first, path, sections]

end Setting

/-- The tree has this value for a setting, and is otherwise as a plain one is. -/
structure Overrides (setting : Setting) (value plain tree : Tree) : Prop where
  value : (tree.get? setting.path).map Tree.outline = some value.outline
  isSection : setting.first ∈ sections → tree.IsSection [setting.first]
  beside : ∀ other : Setting, other ≠ setting →
    (tree.get? other.path).map Tree.outline = (plain.get? other.path).map Tree.outline
  elsewhere : ∀ name, name ≠ setting.first → tree.get? [name] = plain.get? [name]

namespace Overrides

theorem put_key (setting : Setting) (h : value.isTable = false) (plain : Tree) :
    Overrides setting value plain (plain.put (setting.key, value)) := by
  have hentry := setting.admissibleEntry_key h
  obtain ⟨route, hroute⟩ := setting.ofKey_key
  refine ⟨?_, fun hsection ↦ ?_, fun other hother ↦ ?_, fun name hname ↦ ?_⟩
  · rw [hentry.get?_put, Setting.get?_entryTree_key, if_pos rfl, Option.some_or, Option.map_some]
  · refine (hentry.isSection_put plain hsection).2 (.inl ?_)
    cases setting <;> rfl
  · rw [hentry.get?_put, Setting.get?_entryTree_key, if_neg hother, Option.none_or]
  · exact Tree.get?_put_of_ne plain value hroute hname

theorem put (h : Overrides setting value plain tree) (hentry : AdmissibleEntry entry)
    (hnone : (entryTree entry).get? setting.path = none) :
    Overrides setting value (plain.put entry) (tree.put entry) where
  value := by rw [hentry.get?_put, hnone, Option.none_or, h.value]
  isSection hsection := (hentry.isSection_put tree hsection).2 (.inr (h.isSection hsection))
  beside other hother := by
    rw [hentry.get?_put, hentry.get?_put, Option.map_or, Option.map_or, h.beside other hother]
  elsewhere name hname := Tree.get?_put_congr (h.elsewhere name hname) entry

theorem foldl_put (h : Overrides setting value plain tree)
    (hentries : ∀ entry ∈ entries, AdmissibleEntry entry)
    (hnone : ∀ entry ∈ entries, (entryTree entry).get? setting.path = none) :
    Overrides setting value (entries.foldl Tree.put plain) (entries.foldl Tree.put tree) := by
  induction entries generalizing plain tree with
  | nil => exact h
  | cons entry entries ih =>
    obtain ⟨hentry, hentries⟩ := List.forall_mem_cons.1 hentries
    obtain ⟨hfirst, hnone⟩ := List.forall_mem_cons.1 hnone
    exact ih (h.put hentry hfirst) hentries hnone

theorem isSection_top (h : Overrides setting value plain tree)
    (hplain : ∀ name ∈ sections, ∀ top, plain.get? [name] = some top → top.isSection = true) :
    ∀ name ∈ sections, ∀ top, tree.get? [name] = some top → top.isSection = true := by
  intro name hname top htop
  by_cases hfirst : name = setting.first
  · subst hfirst
    have htable := h.isSection hname top htop
    cases top with
    | table => rfl
    | bool | integer | float | text | void | list => cases htable
  · exact hplain name hname top ((h.elsewhere name hfirst).symm.trans htop)

theorem not_list (h : Overrides setting value plain tree) (hsection : setting.first ∈ sections)
    (items : List Tree) : tree.get? [setting.first] ≠ some (.list items) := by
  intro hlist
  cases h.isSection hsection _ hlist

theorem convert?_setting (h : Overrides setting value plain tree) :
    setting.convert? ((setting.found? tree).getD setting.builtin) = setting.convert? value := by
  rw [Setting.found?_eq_get? h.not_list, ← convert?_outline, ← Option.getD_map Tree.outline, h.value]
  exact convert?_outline setting value

theorem convert?_other (h : Overrides setting value plain tree) {other : Setting}
    (hother : other ≠ setting) (hlisted : ¬setting.ListedWith plain other) :
    other.convert? ((other.found? tree).getD other.builtin) =
      other.convert? ((other.found? plain).getD other.builtin) := by
  by_cases hfirst : other.first = setting.first
  · have hsection := (Setting.path_ne_of_first_eq hother hfirst).1
    rw [Setting.found?_eq_get? fun _ ↦ hfirst ▸ h.not_list hsection,
      Setting.found?_eq_get? fun _ items hlist ↦ hlisted ⟨hfirst, items, hfirst ▸ hlist⟩,
      ← convert?_outline, ← Option.getD_map Tree.outline, h.beside other hother, Option.getD_map,
      convert?_outline]
  · rw [Setting.found?, h.elsewhere _ hfirst, ← Setting.found?]

theorem convert?_listed (h : Overrides setting value plain tree) {other : Setting}
    (hother : other ≠ setting) (hlisted : setting.ListedWith plain other) :
    other.convert? ((other.found? tree).getD other.builtin) = some other.builtin := by
  obtain ⟨hfirst, items, hlist⟩ := hlisted
  obtain ⟨hsection, hpath⟩ := Setting.path_ne_of_first_eq hother hfirst
  have hnone := h.beside other hother
  rw [← hfirst] at hlist
  rw [Setting.get?_path_of_list hpath hlist, Option.map_none, Option.map_eq_none_iff] at hnone
  rw [Setting.found?_eq_get? fun _ ↦ hfirst ▸ h.not_list hsection, hnone]
  exact convert?_builtin other

theorem ofTree {found : Tree} (h : Overrides setting value plain tree)
    (hplain : ofTree plain = .ok s) (hvalue : setting.convert? value = some found) :
    ∃ s', Settings.ofTree tree = .ok s' ∧ s'.get setting = found ∧
      ∀ other : Setting, other ≠ setting →
        (¬setting.ListedWith plain other → s'.get other = s.get other) ∧
          (setting.ListedWith plain other → s'.get other = other.builtin) := by
  obtain ⟨hsections, hsettings⟩ := ofTree_eq_ok_iff.1 hplain
  obtain ⟨s', hs'⟩ :
      ∃ s', ofValues (fun other ↦ (other.found? tree).getD other.builtin) = .ok s' := by
    refine exists_ofValues fun other hnone ↦ ?_
    by_cases hother : other = setting
    · subst hother
      cases hnone.symm.trans (h.convert?_setting.trans hvalue)
    by_cases hlisted : setting.ListedWith plain other
    · cases hnone.symm.trans (h.convert?_listed hother hlisted)
    · cases hnone.symm.trans ((h.convert?_other hother hlisted).trans (hsettings other))
  have hconverted := ofValues_eq_ok_iff.1 hs'
  refine ⟨s', ofTree_eq_ok_iff.2 ⟨h.isSection_top hsections, hconverted⟩, ?_,
    fun other hother ↦ ⟨fun hlisted ↦ ?_, fun hlisted ↦ ?_⟩⟩
  · exact Option.some.inj ((hconverted setting).symm.trans (h.convert?_setting.trans hvalue))
  · exact Option.some.inj ((hconverted other).symm.trans
      ((h.convert?_other hother hlisted).trans (hsettings other)))
  · exact Option.some.inj ((hconverted other).symm.trans (h.convert?_listed hother hlisted))

end Overrides

end Phrasing.Settings
