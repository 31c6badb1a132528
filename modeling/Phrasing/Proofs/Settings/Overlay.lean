import Phrasing.Settings.Tree

/-!
What is found in a tree that is laid over another.

Along a path that leads through tables, the later tree decides what it sets and leaves the rest to
the earlier one. Putting a value under a key is laying a tree with that value alone over the tree; of
a list that a key leads into, what matters is only that it is one.
-/

namespace Phrasing.Settings

namespace Entries

variable {name other : String} {value : Tree} {entries : Entries}

theorem lookup_put : (put name value entries).lookup other =
    if other == name then some value else entries.lookup other := by
  induction entries with
  | nil => rw [put, List.lookup_cons, List.lookup_nil]; cases other == name <;> rfl
  | cons entry entries ih =>
    obtain ⟨first, held⟩ := entry
    rw [put]
    split
    · next h =>
      obtain rfl : first = name := eq_of_beq h
      rw [List.lookup_cons, List.lookup_cons]
      cases other == first <;> rfl
    · next h =>
      rw [List.lookup_cons, ih, List.lookup_cons]
      cases hother : other == first with
      | false => rfl
      | true =>
        obtain rfl : other = first := eq_of_beq hother
        exact (if_neg h).symm

theorem lookup_eq_none (h : name ∉ entries.map Prod.fst) : entries.lookup name = none := by
  rw [List.lookup_eq_none_iff]
  intro entry hmem
  rw [bne_iff_ne]
  intro heq
  exact h (heq ▸ List.mem_map_of_mem hmem)

theorem mem_put {entry : String × Tree} (h : entry ∈ put name value entries) :
    entry = (name, value) ∨ entry ∈ entries := by
  induction entries with
  | nil => exact .inl (List.mem_singleton.1 h)
  | cons first entries ih =>
    rw [put] at h
    split at h
    · rcases List.mem_cons.1 h with rfl | h
      · exact .inl rfl
      · exact .inr (.tail _ h)
    · rcases List.mem_cons.1 h with rfl | h
      · exact .inr (.head _)
      · exact (ih h).imp id (.tail _)

theorem nodup_put (h : (entries.map Prod.fst).Nodup) :
    ((put name value entries).map Prod.fst).Nodup := by
  induction entries with
  | nil => simp [put]
  | cons first entries ih =>
    obtain ⟨hnew, hlater⟩ := List.nodup_cons.1 h
    rw [put]
    split
    · next heq =>
      rw [eq_of_beq heq] at hnew
      exact List.nodup_cons.2 ⟨hnew, hlater⟩
    · next hne =>
      refine List.nodup_cons.2 ⟨?_, ih hlater⟩
      intro hmem
      obtain ⟨entry, hentry, heq⟩ := List.mem_map.1 hmem
      rcases mem_put hentry with rfl | hentry
      · exact hne (beq_iff_eq.2 heq.symm)
      · exact hnew (heq ▸ List.mem_map_of_mem hentry)

end Entries

namespace Tree

/-- The path leads through tables, as far as it leads. -/
def Opens : Tree → List String → Prop
  | _, [] => True
  | tree, name :: path =>
    tree.isTable = true ∧ ∀ child, tree.entries.lookup name = some child → child.Opens path

variable {tree earlier value child : Tree} {name other : String} {path : List String}
  {change : Tree → Tree}

theorem Distinct.empty : empty.Distinct := .table .nil (by simp)

theorem Distinct.of_entries (h : tree.Distinct) :
    (tree.entries.map Prod.fst).Nodup ∧ ∀ entry ∈ tree.entries, entry.2.Distinct := by
  cases h with
  | table hnames hentries => exact ⟨hnames, hentries⟩
  | value h =>
    cases tree with
    | table => cases h
    | _ => exact ⟨.nil, by simp [Tree.entries]⟩

theorem Distinct.of_lookup (h : tree.Distinct)
    (hchild : tree.entries.lookup name = some child) : child.Distinct := by
  obtain ⟨before, after, hentries, -⟩ := List.lookup_eq_some_iff.1 hchild
  exact h.of_entries.2 (name, child) (by simp [hentries])

theorem Distinct.alter (h : tree.Distinct)
    (hchange : ∀ t, t.Distinct → (change t).Distinct) : (tree.alter name change).Distinct := by
  have hchild : (change ((tree.entries.lookup name).getD .empty)).Distinct := by
    apply hchange
    cases hlookup : tree.entries.lookup name with
    | none => exact .empty
    | some child => exact h.of_lookup hlookup
  refine .table (Entries.nodup_put h.of_entries.1) fun entry hentry ↦ ?_
  rcases Entries.mem_put hentry with rfl | hentry
  · exact hchild
  · exact h.of_entries.2 entry hentry

theorem isTable_alterItem (index : Int) : (tree.alterItem index change).isTable = false := by
  unfold alterItem
  dsimp only
  split <;> rfl

theorem Distinct.alterAt {route : Route} (h : tree.Distinct)
    (hchange : ∀ t, t.Distinct → (change t).Distinct) : (tree.alterAt change route).Distinct := by
  induction route generalizing tree with
  | nil => exact hchange tree h
  | cons step route ih =>
    cases step with
    | name name => exact h.alter fun t ht ↦ ih ht
    | index index => exact .value (isTable_alterItem index)

theorem get?_empty (hpath : path ≠ []) : empty.get? path = none := by
  cases path with
  | nil => exact absurd rfl hpath
  | cons => rfl

theorem get?_cons (tree : Tree) (name : String) (path : List String) :
    tree.get? (name :: path) = (tree.entries.lookup name).bind fun child ↦ child.get? path := rfl

theorem get?_singleton (tree : Tree) (name : String) :
    tree.get? [name] = tree.entries.lookup name := Option.bind_fun_some _

theorem lookup_alter :
    (tree.alter name change).entries.lookup other =
      if other == name then some (change ((tree.entries.lookup name).getD empty))
      else tree.entries.lookup other := Entries.lookup_put

theorem overlay_value (h : value.isTable = false) : earlier.overlay value = value := by
  cases value with
  | table => cases h
  | _ => rfl

theorem isTable_overlayEntries {entries : Entries} (h : earlier.isTable = true) :
    (overlayEntries earlier entries).isTable = true := by
  induction entries generalizing earlier with
  | nil => rwa [overlayEntries]
  | cons entry entries ih =>
    rw [overlayEntries]
    exact ih rfl

theorem isTable_overlay (h : value.isTable = true) : (earlier.overlay value).isTable = true := by
  cases value with
  | table entries =>
    rw [overlay]
    exact isTable_overlayEntries rfl
  | _ => cases h

theorem lookup_overlayEntries {entries : Entries} (h : (entries.map Prod.fst).Nodup) :
    (overlayEntries earlier entries).entries.lookup name =
      match entries.lookup name with
      | some child => some (((earlier.entries.lookup name).getD empty).overlay child)
      | none => earlier.entries.lookup name := by
  induction entries generalizing earlier with
  | nil => rw [overlayEntries, List.lookup_nil]
  | cons entry entries ih =>
    obtain ⟨first, held⟩ := entry
    obtain ⟨hnew, hlater⟩ := List.nodup_cons.1 h
    rw [overlayEntries, ih hlater, lookup_alter, List.lookup_cons]
    cases hname : name == first with
    | false => rfl
    | true =>
      obtain rfl : name = first := eq_of_beq hname
      rw [Entries.lookup_eq_none hnew]
      rfl

theorem lookup_overlay (h : value.Distinct) (htable : value.isTable = true) :
    (earlier.overlay value).entries.lookup name =
      match value.entries.lookup name with
      | some child => some (((earlier.entries.lookup name).getD empty).overlay child)
      | none => earlier.entries.lookup name := by
  cases value with
  | table entries =>
    rw [overlay]
    exact lookup_overlayEntries h.of_entries.1
  | _ => cases htable

/-- The later tree decides what stands at the end of a path, if it sets anything there. -/
theorem get?_overlay (hvalue : value.Distinct) (hopens : value.Opens path)
    (hend : ∀ found, value.get? path = some found → found.isTable = false) :
    (earlier.overlay value).get? path = (value.get? path).or (earlier.get? path) := by
  induction path generalizing earlier value with
  | nil => exact congrArg some (overlay_value (hend value rfl))
  | cons name path ih =>
    obtain ⟨htable, hopens⟩ := hopens
    rw [get?_cons, lookup_overlay hvalue htable]
    rw [get?_cons value] at hend ⊢
    cases hchild : value.entries.lookup name with
    | none => rfl
    | some child =>
      rw [hchild] at hend
      refine (ih (hvalue.of_lookup hchild) (hopens child hchild) hend).trans ?_
      change (child.get? path).or _ = (child.get? path).or _
      cases hfound : child.get? path with
      | some => rfl
      | none =>
        have hpath : path ≠ [] := by
          rintro rfl
          cases hfound
        rw [get?_cons]
        cases earlier.entries.lookup name with
        | none => exact get?_empty hpath
        | some => rfl

/-- Nothing but a table stands at the end of the path. -/
def IsSection (tree : Tree) (path : List String) : Prop :=
  ∀ found, tree.get? path = some found → found.isTable = true

theorem isSection_empty (path : List String) : empty.IsSection path := by
  intro found hfound
  cases path with
  | nil =>
    obtain rfl := Option.some.inj hfound
    rfl
  | cons => cases hfound

/-- A later table makes room for itself where an earlier value stands. -/
theorem isSection_overlay (hvalue : value.Distinct) (hopens : value.Opens path)
    (hend : value.IsSection path) :
    (earlier.overlay value).IsSection path ↔
      (value.get? path).isSome = true ∨ earlier.IsSection path := by
  induction path generalizing earlier value with
  | nil =>
    refine iff_of_true ?_ (.inl rfl)
    intro found hfound
    obtain rfl := Option.some.inj hfound
    exact isTable_overlay (hend value rfl)
  | cons name path ih =>
    obtain ⟨htable, hopens⟩ := hopens
    unfold IsSection at hend ⊢
    rw [get?_cons, lookup_overlay hvalue htable]
    rw [get?_cons value] at hend ⊢
    cases hchild : value.entries.lookup name with
    | none => simp [get?_cons]
    | some child =>
      rw [hchild] at hend
      refine (ih (hvalue.of_lookup hchild) (hopens child hchild) hend).trans ?_
      refine or_congr Iff.rfl ?_
      rw [IsSection, get?_cons]
      cases earlier.entries.lookup name with
      | none => exact iff_of_true (isSection_empty path) (by simp)
      | some => rfl

/-! ## Keys with values -/

/-- A value as it is, and an empty list or table for one that holds something. -/
def outline : Tree → Tree
  | list _ => list []
  | table _ => table []
  | value => value

theorem isTable_outline (tree : Tree) : tree.outline.isTable = tree.isTable := by
  cases tree <;> rfl

end Tree

/-- The tree that a key with a value stands for, if those are the items of the list that the key
leads into. -/
def Route.tree (items : List Tree) (value : Tree) : Route → Tree
  | [] => value
  | .name name :: route => .table [(name, tree items value route)]
  | .index _ :: _ => .list items

namespace Route

variable {earlier value : Tree} {items : List Tree} {name : String} {route : Route}

theorem get?_tree_cons (first : String) (path : List String) :
    (tree items value (.name name :: route)).get? (first :: path) =
      if first == name then (tree items value route).get? path else none := by
  change (List.lookup first [(name, tree items value route)]).bind _ = _
  rw [List.lookup_cons]
  cases first == name <;> rfl

theorem distinct_tree (h : value.Distinct) (route : Route) : (route.tree items value).Distinct := by
  induction route with
  | nil => exact h
  | cons step route ih =>
    cases step with
    | name name => exact .table (by simp) (List.forall_mem_singleton.2 ih)
    | index index => exact .value rfl

/-- Putting a value at the end of a route is laying a tree over the tree. -/
theorem exists_overlay_tree (earlier : Tree) (route : Route) (value : Tree) :
    ∃ items, earlier.overlayAt route value = earlier.overlay (route.tree items value) := by
  induction route generalizing earlier with
  | nil => exact ⟨[], rfl⟩
  | cons step route ih =>
    cases step with
    | name name =>
      obtain ⟨items, hitems⟩ := ih ((earlier.entries.lookup name).getD .empty)
      refine ⟨items, ?_⟩
      change Tree.alter name _ earlier = _
      rw [tree, Tree.overlay, Tree.overlayEntries, Tree.overlayEntries, Tree.alter, Tree.alter]
      exact congrArg (fun child ↦ Tree.table (Entries.put name child earlier.entries)) hitems
    | index index =>
      change ∃ items, Tree.alterItem index _ earlier = Tree.list items
      unfold Tree.alterItem
      dsimp only
      split <;> exact ⟨_, rfl⟩

/-- The items of the list do not matter to what kind of value stands at a path. -/
theorem map_outline_get?_tree (items items' : List Tree) (value : Tree) (route : Route)
    (path : List String) : ((route.tree items value).get? path).map Tree.outline =
      ((route.tree items' value).get? path).map Tree.outline := by
  induction route generalizing path with
  | nil => rfl
  | cons step route ih =>
    cases step with
    | name name =>
      cases path with
      | nil => rfl
      | cons first path =>
        rw [get?_tree_cons, get?_tree_cons]
        split
        · exact ih path
        · rfl
    | index index => cases path <;> rfl

theorem ofKey_cons (key : String) : ∃ name route, ofKey key = .name name :: route := by
  unfold ofKey
  cases hroute : ofSteps? (key.length + 1) ('.' :: key.toList) with
  | none => exact ⟨key, [], rfl⟩
  | some route =>
    rw [ofSteps?] at hroute
    obtain ⟨⟨name, rest⟩, -, hroute⟩ := Option.bind_eq_some_iff.1 hroute
    obtain ⟨later, -, hroute⟩ := Option.bind_eq_some_iff.1 hroute
    obtain rfl := Option.some.inj hroute
    exact ⟨name, later, rfl⟩

end Route

/-- The tree that a key with a value stands for. Of a list that the key leads into nothing is kept. -/
def entryTree : String × Tree → Tree
  | (key, value) => (Route.ofKey key).tree [] value

/-- The trees that the keys of a source stand for, in their order. -/
def Layer.trees (layer : Layer) : List Tree := layer.map entryTree

end Phrasing.Settings
