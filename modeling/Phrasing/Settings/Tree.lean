import Phrasing.Decimal.Layout
import Phrasing.Settings.Route

/-!
Trees of settings: values under names, in tables that hold further tables, and in lists.

A later tree is laid over an earlier one key by key. A value hides whatever stood under its name;
a table hides a value, but joins a table.
-/

namespace Phrasing.Settings

/-- A setting, or a table of settings by name. -/
inductive Tree where
  | bool (b : Bool)
  | integer (n : Int)
  | float (x : Binary64)
  | text (s : String)
  /-- An item of a list that nothing has set. -/
  | void
  | list (items : List Tree)
  | table (entries : List (String × Tree))

abbrev Entries := List (String × Tree)

namespace Entries

/-- Puts a tree under a name, in place of what stands there. -/
def put (name : String) (value : Tree) : Entries → Entries
  | [] => [(name, value)]
  | entry :: entries =>
    if entry.1 == name then (name, value) :: entries else entry :: put name value entries

end Entries

namespace Tree

def empty : Tree := table []

instance : Inhabited Tree := ⟨empty⟩

/-- The entries of a table; a value has none. -/
def entries : Tree → Entries
  | table entries => entries
  | _ => []

/-- The items of a list; anything else has none. -/
def items : Tree → List Tree
  | list items => items
  | _ => []

def isTable : Tree → Bool
  | table _ => true
  | _ => false

def get? (tree : Tree) : List String → Option Tree
  | [] => some tree
  | name :: path => (tree.entries.lookup name).bind fun child ↦ child.get? path

/-- No table of the tree has a name twice; this does not look into lists. -/
inductive Distinct : Tree → Prop
  | value {tree : Tree} (h : tree.isTable = false) : Distinct tree
  | table {entries : Entries} (hnames : (entries.map Prod.fst).Nodup)
      (hentries : ∀ entry ∈ entries, Distinct entry.2) : Distinct (table entries)

/-- Changes what stands under a name, or an empty table if nothing does. -/
def alter (name : String) (change : Tree → Tree) (tree : Tree) : Tree :=
  table (Entries.put name (change ((tree.entries.lookup name).getD empty)) tree.entries)

/-- Changes the item at an index, which counts from the end if it is negative. A list that is too
short is filled up, at the end or at the front. -/
def alterItem (index : Int) (change : Tree → Tree) (tree : Tree) : Tree :=
  let filling (length : Nat) : List Tree := List.replicate (length - tree.items.length) void
  if 0 ≤ index then
    list ((tree.items ++ filling (index.toNat + 1)).modify index.toNat change)
  else
    list ((filling index.natAbs ++ tree.items).modify (tree.items.length - index.natAbs) change)

/-- Changes the tree at the end of a route, which is laid through tables and lists. -/
def alterAt (change : Tree → Tree) : Route → Tree → Tree
  | [], tree => change tree
  | .name name :: route, tree => alter name (alterAt change route) tree
  | .index index :: route, tree => alterItem index (alterAt change route) tree

mutual

/-- Lays a tree over an earlier one. -/
def overlay (earlier : Tree) : Tree → Tree
  | table entries => overlayEntries (table earlier.entries) entries
  | value => value

def overlayEntries (earlier : Tree) : Entries → Tree
  | [] => earlier
  | (name, value) :: entries => overlayEntries (alter name (overlay · value) earlier) entries

end

/-- Lays a tree over what is at the end of a route. -/
def overlayAt (earlier : Tree) (route : Route) (value : Tree) : Tree :=
  earlier.alterAt (·.overlay value) route

end Tree

/-- A source of settings: trees under keys, each key a route. -/
abbrev Layer := List (String × Tree)

/-- Lays a source of settings over an earlier tree. -/
def Layer.overlay (earlier : Tree) (layer : Layer) : Tree :=
  layer.foldl (fun tree (key, value) ↦ tree.overlayAt (Route.ofKey key) value) earlier

/-- A reader of files: which texts are files of settings, and what they set. -/
class FileReader where
  read? : String → Option Entries

/-- All that is asked of a reader of files: no table that it reads has a name twice. -/
structure FileReader.Lawful [FileReader] : Prop where
  distinct {text : String} {entries : Entries} (h : read? text = some entries) :
    (Tree.table entries).Distinct

end Phrasing.Settings
