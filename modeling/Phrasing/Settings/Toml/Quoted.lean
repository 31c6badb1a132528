import Phrasing.Settings.Route

/-!
Strings of a TOML text, on one line or on several. In double quotes a backslash starts an escape; in
single quotes it is a character like any other.

A reader takes what it can from the front of a text and gives back the rest. A string is read piece
by piece, up to the quotes that end it.
-/

namespace Phrasing.Settings.Toml

/-- Takes something from the front of a text, if it is there. -/
abbrev Reader (α : Type) := List Char → Option (α × List Char)

/-- Characters that a line can hold: no control characters but the tab. -/
def isLineChar (c : Char) : Bool := c == '\t' || (0x20 ≤ c.toNat && c != '\x7f')

def lineBreak? : Reader (List Char)
  | '\n' :: s => some (['\n'], s)
  | '\r' :: '\n' :: s => some (['\r', '\n'], s)
  | _ => none

def skipSpace : List Char → List Char
  | ' ' :: s | '\t' :: s | '\n' :: s | '\r' :: '\n' :: s => skipSpace s
  | s => s

/-! ## Escapes -/

/-- The character with that code in hexadecimal digits. -/
def hexChar? (digits : List Char) : Option Char :=
  let digitValue? (c : Char) : Option Nat :=
    if c.isDigit then some (c.toNat - '0'.toNat)
    else if 'a' ≤ c.toLower ∧ c.toLower ≤ 'f' then some (c.toLower.toNat - 'a'.toNat + 10)
    else none
  let code := digits.foldl (fun n? c ↦ n?.bind fun n ↦ (digitValue? c).map (16 * n + ·)) (some 0)
  code.bind fun n ↦ if h : n.isValidChar then some (Char.ofNatAux n h) else none

/-- The character that a letter after a backslash stands for. -/
def escaped? : Char → Option Char
  | 'b' => some '\x08'
  | 't' => some '\t'
  | 'n' => some '\n'
  | 'f' => some '\x0c'
  | 'r' => some '\r'
  | 'e' => some '\x1b'
  | '"' => some '"'
  | '\\' => some '\\'
  | _ => none

/-- The character of an escape, after its backslash: by a code of fixed length, or by a letter. -/
def escape? : Reader Char
  | 'x' :: a :: b :: s => (hexChar? [a, b]).map fun c ↦ (c, s)
  | 'u' :: a :: b :: c :: d :: s => (hexChar? [a, b, c, d]).map fun c ↦ (c, s)
  | 'U' :: a :: b :: c :: d :: e :: f :: g :: h :: s =>
    (hexChar? [a, b, c, d, e, f, g, h]).map fun c ↦ (c, s)
  | c :: s => (escaped? c).map fun c ↦ (c, s)
  | [] => none

/-! ## Pieces -/

def plain? : Reader (List Char)
  | [] => none
  | c :: s => if isLineChar c then some ([c], s) else none

def escapable? : Reader (List Char)
  | '\\' :: s => (escape? s).map fun (c, rest) ↦ ([c], rest)
  | s => plain? s

def plainLines? (s : List Char) : Option (List Char × List Char) :=
  (lineBreak? s).orElse fun _ ↦ plain? s

/-- A piece of several lines in double quotes; a backslash that ends its line hides all blanks and
ends of lines after it. -/
def escapableLines? : Reader (List Char)
  | '\\' :: s =>
    match lineBreak? (skipGap s) with
    | some (_, rest) => some ([], skipSpace rest)
    | none => escapable? ('\\' :: s)
  | s => plainLines? s

/-! ## Ends -/

def quote? (mark : Char) : Reader (List Char)
  | [] => none
  | c :: s => if c == mark then some ([], s) else none

/-- The three quotes that end a string on several lines; up to two more before them belong to it. -/
def quotes? (mark : Char) (s : List Char) : Option (List Char × List Char) :=
  let count := (s.takeWhile (· == mark)).length
  if count < 3 then none
  else some (List.replicate (min count 5 - 3) mark, s.drop (min count 5))

/-! ## Strings -/

/-- Pieces up to an end, at most that many. -/
def pieces? (end? piece? : Reader (List Char)) : Nat → Reader (List Char)
  | 0, _ => none
  | n + 1, s => (end? s).orElse fun _ ↦ do
    let (start, rest) ← piece? s
    let (text, rest) ← pieces? end? piece? n rest
    return (start ++ text, rest)

def upTo (end? piece? : Reader (List Char)) : Reader String := fun s ↦
  (pieces? end? piece? (s.length + 1) s).map fun (text, rest) ↦ (String.ofList text, rest)

def string? : Reader String
  | '"' :: s => upTo (quote? '"') escapable? s
  | '\'' :: s => upTo (quote? '\'') plain? s
  | _ => none

/-- The text without the end of a line that starts it. -/
def dropBreak (s : List Char) : List Char := ((lineBreak? s).map Prod.snd).getD s

/-- A string on one line, or on several in three quotes. -/
def text? : Reader String
  | '"' :: '"' :: '"' :: s => upTo (quotes? '"') escapableLines? (dropBreak s)
  | '\'' :: '\'' :: '\'' :: s => upTo (quotes? '\'') plainLines? (dropBreak s)
  | s => string? s

end Phrasing.Settings.Toml
