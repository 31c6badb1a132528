import Phrasing.Proofs.Settings.Document
import Phrasing.Proofs.Settings.Values

/-!
Which source a setting is taken from: the last one that sets it, key by key.
-/

namespace Phrasing.Settings

open Outcome

/-- The sections are tables wherever they are set, and the settings are not. -/
structure Tree.Orderly (tree : Tree) : Prop where
  sections : ∀ name ∈ sections, tree.IsSection [name]
  settings : ∀ (setting : Setting) (found : Tree), tree.get? setting.path = some found →
    found.isTable = false

instance (tree : Tree) : Decidable tree.Orderly :=
  decidable_of_iff
    ((∀ name ∈ sections, ∀ found ∈ tree.get? [name], found.isTable = true) ∧
      ∀ setting ∈ Setting.all, ∀ found ∈ tree.get? setting.path, found.isTable = false)
    ⟨fun h ↦ ⟨h.1, fun setting ↦ h.2 setting (Setting.mem_all setting)⟩,
      fun h ↦ ⟨h.sections, fun setting _ ↦ h.settings setting⟩⟩

/-- What stands at the end of a path, by the last key that sets it. -/
def Layer.value? (layer : Layer) (path : List String) : Option Tree :=
  layer.trees.reverse.findSome? fun tree ↦ tree.get? path

/-- What stands at the end of a path, by the last source that sets it. -/
def winner? (sources : List Layer) (path : List String) : Option Tree :=
  sources.reverse.findSome? fun layer ↦ layer.value? path

/-- A tree that can be laid over others: it hides neither a section nor a setting. -/
structure Tree.Admissible (tree : Tree) : Prop where
  isTable : tree.isTable = true
  distinct : tree.Distinct
  orderly : tree.Orderly

variable {tree tree' earlier value : Tree} {key : String} {entry : String × Tree}
  {entries : List (String × Tree)} {sources : List Layer}

theorem Setting.opens (h : tree.Admissible) (setting : Setting) : tree.Opens setting.path := by
  have hsection {name : String} (hname : name ∈ sections) (child : Tree)
      (hchild : tree.entries.lookup name = some child) : child.isTable = true := by
    apply h.orderly.sections name hname child
    rw [Tree.get?_cons, hchild]
    rfl
  have hengine := @hsection "engine" (by simp [sections])
  have hobservability := @hsection "observability" (by simp [sections])
  cases setting with
  | serviceName | environment => exact ⟨h.isTable, fun _ _ ↦ trivial⟩
  | strict | trace =>
    exact ⟨h.isTable, fun child hchild ↦ ⟨hengine child hchild, fun _ _ ↦ trivial⟩⟩
  | logLevel | logFormat =>
    exact ⟨h.isTable, fun child hchild ↦ ⟨hobservability child hchild, fun _ _ ↦ trivial⟩⟩

theorem Tree.Orderly.of_outline (h : tree.Orderly) (houtline : ∀ path,
    (tree.get? path).map outline = (tree'.get? path).map outline) : tree'.Orderly := by
  have hback {path : List String} {found : Tree} (hfound : tree'.get? path = some found) :
      ∃ first, tree.get? path = some first ∧ first.isTable = found.isTable := by
    have hpath := houtline path
    rw [hfound] at hpath
    obtain ⟨first, hfirst, heq⟩ := Option.map_eq_some_iff.1 hpath
    exact ⟨first, hfirst, by rw [← isTable_outline, heq, isTable_outline]⟩
  constructor
  · intro name hname found hfound
    obtain ⟨first, hfirst, htable⟩ := hback hfound
    exact htable ▸ h.sections name hname first hfirst
  · intro setting found hfound
    obtain ⟨first, hfirst, htable⟩ := hback hfound
    exact htable ▸ h.settings setting first hfirst

/-- An entry of a source whose tree hides neither a section nor a setting. -/
structure AdmissibleEntry (entry : String × Tree) : Prop where
  distinct : entry.2.Distinct
  orderly : (entryTree entry).Orderly

/-- Lays an entry of a source over a tree. -/
def Tree.put (earlier : Tree) : String × Tree → Tree
  | (key, value) => earlier.overlayAt (Route.ofKey key) value

namespace AdmissibleEntry

theorem admissible_tree (h : AdmissibleEntry (key, value)) (items : List Tree) :
    ((Route.ofKey key).tree items value).Admissible where
  isTable := by
    obtain ⟨name, route, hroute⟩ := Route.ofKey_cons key
    rw [hroute]
    rfl
  distinct := Route.distinct_tree h.distinct _
  orderly := h.orderly.of_outline (Route.map_outline_get?_tree _ _ _ _)

/-- The entry decides a setting that it sets. -/
theorem get?_put (h : AdmissibleEntry entry) (earlier : Tree) (setting : Setting) :
    ((earlier.put entry).get? setting.path).map Tree.outline =
      (((entryTree entry).get? setting.path).or (earlier.get? setting.path)).map Tree.outline := by
  obtain ⟨key, value⟩ := entry
  obtain ⟨items, hitems⟩ := Route.exists_overlay_tree earlier (Route.ofKey key) value
  have htree := h.admissible_tree items
  rw [Tree.put, hitems, Tree.get?_overlay htree.distinct (setting.opens htree)
    (htree.orderly.settings setting), Option.map_or, Option.map_or,
    Route.map_outline_get?_tree items [], entryTree]

/-- The entry makes room for a section that it sets. -/
theorem isSection_put (h : AdmissibleEntry entry) (earlier : Tree) {name : String}
    (hname : name ∈ sections) : (earlier.put entry).IsSection [name] ↔
      ((entryTree entry).get? [name]).isSome = true ∨ earlier.IsSection [name] := by
  obtain ⟨key, value⟩ := entry
  obtain ⟨items, hitems⟩ := Route.exists_overlay_tree earlier (Route.ofKey key) value
  have htree := h.admissible_tree items
  have hopens : ((Route.ofKey key).tree items value).Opens [name] :=
    ⟨htree.isTable, fun _ _ ↦ trivial⟩
  have hsome : (((Route.ofKey key).tree items value).get? [name]).isSome =
      ((entryTree (key, value)).get? [name]).isSome := by
    rw [← Option.isSome_map, Route.map_outline_get?_tree items [], Option.isSome_map, entryTree]
  rw [Tree.put, hitems, Tree.isSection_overlay htree.distinct hopens
    (htree.orderly.sections name hname), hsome]

end AdmissibleEntry

theorem get?_foldl_put (h : ∀ entry ∈ entries, AdmissibleEntry entry) (earlier : Tree)
    (setting : Setting) :
    ((entries.foldl Tree.put earlier).get? setting.path).map Tree.outline =
      (((entries.map entryTree).reverse.findSome? fun tree ↦ tree.get? setting.path).or
        (earlier.get? setting.path)).map Tree.outline := by
  induction entries generalizing earlier with
  | nil => rfl
  | cons entry entries ih =>
    obtain ⟨hentry, hentries⟩ := List.forall_mem_cons.1 h
    rw [List.foldl_cons, ih hentries, Option.map_or, hentry.get?_put, ← Option.map_or, List.map_cons,
      List.reverse_cons, List.findSome?_append, List.findSome?_singleton, Option.or_assoc]

theorem isSection_foldl_put (h : ∀ entry ∈ entries, AdmissibleEntry entry) {name : String}
    (hname : name ∈ sections) (hearlier : earlier.IsSection [name]) :
    (entries.foldl Tree.put earlier).IsSection [name] := by
  induction entries generalizing earlier with
  | nil => exact hearlier
  | cons entry entries ih =>
    obtain ⟨hentry, hentries⟩ := List.forall_mem_cons.1 h
    exact ih hentries ((hentry.isSection_put earlier hname).2 (.inr hearlier))

theorem foldl_overlay_eq (sources : List Layer) (earlier : Tree) :
    sources.foldl Layer.overlay earlier = sources.flatten.foldl Tree.put earlier :=
  List.foldl_flatten.symm

theorem winner?_eq (sources : List Layer) (path : List String) :
    winner? sources path =
      (sources.flatten.map entryTree).reverse.findSome? fun tree ↦ tree.get? path := by
  induction sources with
  | nil => rfl
  | cons layer sources ih =>
    rw [winner?, List.reverse_cons, List.findSome?_append, List.findSome?_singleton, ← winner?, ih,
      List.flatten_cons, List.map_append, List.reverse_append, List.findSome?_append, Layer.value?,
      Layer.trees]

/-- Each setting of sources laid over each other is taken from the last source that sets it. -/
theorem ofTree_foldl_overlay (h : ∀ layer ∈ sources, ∀ entry ∈ layer, AdmissibleEntry entry) :
    ofTree (sources.foldl Layer.overlay .empty) =
      ofValues fun setting ↦ (winner? sources setting.path).getD setting.builtin := by
  have hentries : ∀ entry ∈ sources.flatten, AdmissibleEntry entry := by
    intro entry hentry
    obtain ⟨layer, hlayer, hentry⟩ := List.mem_flatten.1 hentry
    exact h layer hlayer entry hentry
  rw [foldl_overlay_eq, ofTree_eq_ofValues]
  · rw [← ofValues_outline, ← ofValues_outline fun setting ↦ (winner? _ _).getD _]
    congr
    funext setting
    have hempty : Tree.empty.get? setting.path = none := by cases setting <;> rfl
    have hfound := get?_foldl_put hentries .empty setting
    rw [hempty, Option.or_none, ← winner?_eq] at hfound
    rw [← Option.getD_map Tree.outline, hfound, Option.getD_map]
  · intro name hname
    exact isSection_foldl_put hentries hname (Tree.isSection_empty _)

/-! ## The sources of a service -/

variable {service place : String} {layer : Layer}

theorem isTable_variableValue (s : String) : (Variable.value s).isTable = false := by
  unfold Variable.value
  dsimp only
  split
  · rfl
  split
  · rfl
  split
  · rfl
  split <;> rfl

theorem distinct_variableLayer (assignments : List (String × String)) :
    ∀ entry ∈ Variable.layer assignments, entry.2.Distinct := by
  intro entry hentry
  obtain ⟨⟨name, s⟩, -, hkey⟩ := List.mem_filterMap.1 hentry
  obtain ⟨key, -, rfl⟩ := Option.map_eq_some_iff.1 hkey
  exact .value (isTable_variableValue s)

theorem Layer.admissible_of_orderly (hdistinct : ∀ entry ∈ layer, entry.2.Distinct)
    (horderly : ∀ tree ∈ layer.trees, tree.Orderly) : ∀ entry ∈ layer, AdmissibleEntry entry :=
  fun entry hentry ↦ ⟨hdistinct entry hentry, horderly _ (List.mem_map_of_mem hentry)⟩

/-- What the caller of a service gives. -/
def callLayer (service place : String) : Layer :=
  [("service_name", .text service), ("environment", .text place)]

theorem trees_callLayer (service place : String) : (callLayer service place).trees =
    [.table [("service_name", .text service)], .table [("environment", .text place)]] := by
  rfl

theorem orderly_callLayer : ∀ tree ∈ (callLayer service place).trees, tree.Orderly := by
  intro tree htree
  simp only [trees_callLayer, List.mem_cons, List.not_mem_nil, or_false] at htree
  refine ⟨fun name hname found hfound ↦ ?_, fun setting found hfound ↦ ?_⟩
  · simp only [sections, List.mem_cons, List.not_mem_nil, or_false] at hname
    rcases htree with rfl | rfl <;> rcases hname with rfl | rfl <;> cases hfound
  · rcases htree with rfl | rfl <;> cases setting <;> cases hfound <;> rfl

theorem distinct_callLayer : ∀ entry ∈ callLayer service place, entry.2.Distinct := by
  intro entry hentry
  simp only [callLayer, List.mem_cons, List.not_mem_nil, or_false] at hentry
  rcases hentry with rfl | rfl <;> exact .value rfl

theorem value?_callLayer (service place : String) (setting : Setting) :
    ((callLayer service place).value? setting.path).getD setting.builtin =
      setting.fallback service place := by
  cases setting <;> rfl

/-- The value of a setting: by the last source that sets it, else by the caller, else built in. -/
def valueOf (sources : List Layer) (service place : String) (setting : Setting) : Tree :=
  (winner? sources setting.path).getD (setting.fallback service place)

theorem winner?_callLayer (sources : List Layer) (setting : Setting) :
    (winner? (callLayer service place :: sources) setting.path).getD setting.builtin =
      valueOf sources service place setting := by
  rw [valueOf, ← value?_callLayer, winner?, List.reverse_cons, List.findSome?_append,
    List.findSome?_singleton, ← winner?]
  cases winner? sources setting.path <;> rfl

section Reader

variable [FileReader] {around : Surroundings} {files : List Layer}

theorem distinct_of_fileLayer (hreader : FileReader.Lawful) {name : String}
    (h : fileLayer around name = .ok layer) : ∀ entry ∈ layer, entry.2.Distinct := by
  unfold fileLayer at h
  split at h
  · cases h
    simp
  split at h
  · cases h
    simp
  split at h
  · next hread =>
    cases h
    exact (hreader.distinct hread).of_entries.2
  · cases h

theorem merged_eq
    (hfiles : ["default", place, service].mapM (fileLayer around) = .ok files) :
    merged around service place =
      .ok ((callLayer service place :: (files ++ [Variable.layer around.assignments])).foldl
        Layer.overlay .empty) := by
  rw [merged, layers, hfiles]
  rfl

theorem loadFrom_eq_ofValues (hreader : FileReader.Lawful)
    (hfiles : ["default", place, service].mapM (fileLayer around) = .ok files)
    (horderly : ∀ layer ∈ files ++ [Variable.layer around.assignments], ∀ tree ∈ layer.trees,
      tree.Orderly) :
    loadFrom around service place =
      ofValues (valueOf (files ++ [Variable.layer around.assignments]) service place) := by
  have hdistinct : ∀ layer ∈ files ++ [Variable.layer around.assignments], ∀ entry ∈ layer,
      entry.2.Distinct := by
    intro layer hlayer
    rcases List.mem_append.1 hlayer with hlayer | hlayer
    · obtain ⟨name, -, hname⟩ := exists_of_mem_of_mapM_eq_ok hfiles hlayer
      exact distinct_of_fileLayer hreader hname
    · obtain rfl := List.mem_singleton.1 hlayer
      exact distinct_variableLayer around.assignments
  rw [loadFrom, merged_eq hfiles]
  change ofTree _ = _
  rw [ofTree_foldl_overlay]
  · congr
    funext setting
    exact winner?_callLayer _ setting
  · refine List.forall_mem_cons.2 ⟨?_, fun layer hlayer ↦ ?_⟩
    · exact Layer.admissible_of_orderly distinct_callLayer orderly_callLayer
    · exact Layer.admissible_of_orderly (hdistinct layer hlayer) (horderly layer hlayer)

/-- The last source that sets a setting decides it, and loading fails exactly if one of the values
that are decided upon cannot be converted. -/
theorem last_source_decides (hreader : FileReader.Lawful)
    (hfiles : ["default", place, service].mapM (fileLayer around) = .ok files)
    (horderly : ∀ layer ∈ files ++ [Variable.layer around.assignments], ∀ tree ∈ layer.trees,
      tree.Orderly) :
    let value := valueOf (files ++ [Variable.layer around.assignments]) service place
    loadFrom around service place = ofValues value ∧
      (∀ s, loadFrom around service place = .ok s ↔
        ∀ setting : Setting, setting.convert? (value setting) = some (s.get setting)) ∧
      ((∃ fault, loadFrom around service place = .error fault) ↔
        ∃ setting : Setting, setting.convert? (value setting) = none) := by
  intro value
  rw [loadFrom_eq_ofValues hreader hfiles horderly]
  exact ⟨rfl, fun _ ↦ ofValues_eq_ok_iff, exists_error_iff⟩

end Reader

/-- A file for every environment, a file for one of them, and a variable. -/
def shop : Surroundings where
  files := [
    ("default.toml", "engine.trace_enabled = \"maybe\"\n[observability]\nlog_level = \"warn\"\n"),
    ("production.toml", "observability.log_level = \"error\"")]
  assignments := [("CFMT_ENGINE__TRACE_ENABLED", "ON")]

def shopFiles : List Layer := [
  [("engine", .table [("trace_enabled", .text "maybe")]),
    ("observability", .table [("log_level", .text "warn")])],
  [("observability", .table [("log_level", .text "error")])],
  []]

theorem last_source_decides_shop : FileReader.Lawful ∧
    ["default", "production", "till"].mapM (fileLayer shop) = .ok shopFiles ∧
      (∀ layer ∈ shopFiles ++ [Variable.layer shop.assignments], ∀ tree ∈ layer.trees,
        tree.Orderly) ∧
      loadFrom shop "till" "production" =
        .ok ⟨"till", "production", ⟨true, true⟩, "error", "pretty"⟩ := by
  have hfiles : ["default", "production", "till"].mapM (fileLayer shop) = .ok shopFiles := rfl
  have horderly : ∀ layer ∈ shopFiles ++ [Variable.layer shop.assignments], ∀ tree ∈ layer.trees,
      tree.Orderly := by
    decide
  refine ⟨Toml.lawful, hfiles, horderly, ?_⟩
  refine ((last_source_decides Toml.lawful hfiles horderly).2.1 _).2 fun setting ↦ ?_
  cases setting <;> rfl

end Phrasing.Settings
