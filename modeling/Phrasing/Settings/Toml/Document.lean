import Phrasing.Settings.Toml.Scalar

/-!
A reader of files in TOML, as far as files of settings go: headers, keys with values, lists and
comments. It reads no tables in braces, no lists of tables and no dates.

No key is set twice, and no table is opened twice: neither by two headers nor by a header and keys
with points.
-/

namespace Phrasing.Settings.Toml

/-- How many names a key can have, and how deep lists can stand in lists. -/
def depthLimit : Nat := 80

def skipComment (s : List Char) : List Char :=
  match s with
  | '#' :: rest => rest.dropWhile isLineChar
  | s => s

/-- The end of a line or of the text, after any blanks and comment. -/
def endLine? (s : List Char) : Option (List Char) :=
  match skipComment (skipGap s) with
  | [] => some []
  | s => (lineBreak? s).map Prod.snd

/-! ## Keys -/

def name? (s : List Char) : Option (String × List Char) :=
  (string? s).orElse fun _ ↦ bareName? s

/-- A key of names with points between them, of at most that many names. -/
def key? : Nat → Reader (List String)
  | 0, _ => none
  | n + 1, s => do
    let (name, rest) ← name? (skipGap s)
    match skipGap rest with
    | '.' :: rest =>
      let (names, rest) ← key? n rest
      return (name :: names, rest)
    | rest => return ([name], rest)

/-! ## Values -/

/-- Skips blanks, comments and ends of lines between the items of a list. -/
def skipLines : Nat → List Char → List Char
  | 0, s => s
  | n + 1, s =>
    let s := skipComment (skipGap s)
    match lineBreak? s with
    | some (_, rest) => skipLines n rest
    | none => s

/-- At most that many items of a list, up to its closing bracket; a comma may follow the last
item. -/
def items? (item? : Reader Tree) : Nat → Reader (List Tree)
  | 0, _ => none
  | n + 1, s =>
    match skipLines s.length s with
    | ']' :: rest => some ([], rest)
    | s => do
      let (item, rest) ← item? s
      match skipLines rest.length rest with
      | ',' :: rest =>
        let (items, rest) ← items? item? n rest
        return (item :: items, rest)
      | ']' :: rest => return ([item], rest)
      | _ => none

/-- A value, with lists in lists at most that deep. -/
def value? : Nat → Reader Tree
  | depth + 1, '[' :: s =>
    (items? (value? depth) (s.length + 1) s).map fun (items, rest) ↦ (.list items, rest)
  | _, s => scalar? s

/-! ## Tables -/

inductive Origin where
  | implied
  | header
  | points
deriving DecidableEq

/-- What is read of a text: its tree, the origin of each table, and the table that is open. -/
structure Document where
  tree : Tree
  origins : List (List String × Origin)
  current : List String

namespace Document

def start : Document := ⟨.empty, [], []⟩

/-- Makes sure of a table at a path; one that is there has to have an origin that is allowed. -/
def ensure (d : Document) (path : List String) (origin : Origin) (allows : Origin → Bool) :
    Option Document :=
  match d.tree.get? path with
  | none =>
    some { d with
      tree := d.tree.alterAt (fun _ ↦ .empty) (path.map .name), origins := (path, origin) :: d.origins }
  | some (.table _) => if (d.origins.lookup path).any allows then some d else none
  | some _ => none

/-- Makes sure of the tables at all paths between two paths, the second of which is not needed. -/
def ensureBetween (origin : Origin) (allows : Origin → Bool) (d : Document) (path : List String) :
    List String → Option Document
  | [] | [_] => some d
  | name :: names => do
    let d ← d.ensure (path ++ [name]) origin allows
    d.ensureBetween origin allows (path ++ [name]) names

def openTable (d : Document) (path : List String) : Option Document := do
  let d ← d.ensureBetween .implied (fun _ ↦ true) [] path
  let d ← d.ensure path .header (· == .implied)
  return { d with origins := (path, .header) :: d.origins, current := path }

def set (d : Document) (key : List String) (value : Tree) : Option Document := do
  let path := d.current ++ key
  let d ← d.ensureBetween .points (· != .header) d.current key
  if 1 < key.length && d.origins.lookup path.dropLast != some .points then none
  else if (d.tree.get? path).isSome then none
  else return { d with tree := d.tree.alterAt (fun _ ↦ value) (path.map .name) }

def readHeader (d : Document) (s : List Char) : Option (Document × List Char) := do
  let (path, rest) ← key? depthLimit s
  match rest with
  | ']' :: rest => return (← d.openTable path, ← endLine? rest)
  | _ => none

def readKey (d : Document) (s : List Char) : Option (Document × List Char) := do
  let (key, rest) ← key? depthLimit s
  match rest with
  | '=' :: rest =>
    let (value, rest) ← value? depthLimit (skipGap rest)
    return (← d.set key value, ← endLine? rest)
  | _ => none

def readLines : Nat → Document → List Char → Option Document
  | 0, d, s => if s.isEmpty then some d else none
  | n + 1, d, s =>
    match endLine? s with
    | some [] => some d
    | some rest => readLines n d rest
    | none => do
      let (d, rest) ← match skipGap s with
        | '[' :: s => d.readHeader s
        | s => d.readKey s
      readLines n d rest

end Document

/-- Skips byte order marks, at most that many. -/
def skipMarks : Nat → List Char → List Char
  | n + 1, '\ufeff' :: s => skipMarks n s
  | _, s => s

/-- The settings of a text, if it is TOML. One byte order mark may stand before the text as a file,
and one more before the TOML in it. -/
def read? (text : String) : Option Entries :=
  let s := skipMarks 2 text.toList
  (Document.start.readLines (s.length + 1) s).map fun d ↦ d.tree.entries

instance : FileReader := ⟨read?⟩

end Phrasing.Settings.Toml
