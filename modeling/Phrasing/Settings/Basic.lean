import Phrasing.Rendering
import Phrasing.Settings.Toml.Document
import Phrasing.Settings.Variable

/-!
The settings of a service, from files, read by any reader, and variables.

The sources are laid over each other in order: the names given by the caller, the common file, the
file of the environment, the file of the service, and the variables.
-/

namespace Phrasing

structure Settings where
  serviceName : String
  environment : String
  options : Options
  logLevel : String
  logFormat : String
deriving DecidableEq, Inhabited

namespace Settings

inductive Fault where
  | notRead (file : String)
  /-- A value where a table is needed. -/
  | notTable (name : String)
  | notSwitch (path : List String)
  | notText (path : List String)
deriving DecidableEq

structure Surroundings where
  files : List (String × String)
  assignments : List (String × String)

/-- Production is the one environment that is told apart. -/
def isProduction (s : Settings) : Bool := s.environment == "production"

/-- Whether the log is written as JSON; the case of the word does not matter. -/
def isJson (s : Settings) : Bool := s.logFormat.toList.map Char.toLower == ['j', 's', 'o', 'n']

/-- The words for on and off, in any case. -/
def switchWord? (s : String) : Option Bool :=
  let word := String.ofList (s.toList.map Char.toLower)
  if ["1", "true", "on", "yes"].contains word then some true
  else if ["0", "false", "off", "no"].contains word then some false
  else none

namespace Tree

/-- A truth value; any number but zero is true. -/
def switch? : Tree → Option Bool
  | bool b => some b
  | integer n => some (n != 0)
  | float x => some (!x.eq (.finite (.zero false)))
  | text s => switchWord? s
  | _ => none

/-- A text, or the text of a truth value or a number. -/
def text? : Tree → Option String
  | bool b => some (if b then "true" else "false")
  | integer n => some (String.ofList (Layout.sign (n < 0) ++ Nat.toDigits 10 n.natAbs))
  | float x => some (String.ofList (Layout.positional.write x))
  | text s => some s
  | _ => none

end Tree

/-- Reads a setting that may be missing. -/
def readAt {α : Type} (read : Tree → Option α) (fault : List String → Fault) (fallback : α)
    (path : List String) (tree : Tree) : Except Fault α :=
  match tree.get? path with
  | none => .ok fallback
  | some value =>
    match read value with
    | some x => .ok x
    | none => .error (fault path)

def switchAt : Bool → List String → Tree → Except Fault Bool := readAt Tree.switch? .notSwitch

def textAt : String → List String → Tree → Except Fault String := readAt Tree.text? .notText

/-- The tree with a table for a section, if it has the section; in a list the fields of the section
stand in their order, and may end before the last. -/
def openSection (name : String) (fields : List String) (tree : Tree) : Except Fault Tree :=
  match tree.get? [name] with
  | none | some (.table _) => .ok tree
  | some (.list items) => .ok (tree.alter name fun _ ↦ .table (fields.zip items))
  | some _ => .error (.notTable name)

def engineFields : List String := ["strict_numeric_kinds", "trace_enabled"]

def observabilityFields : List String := ["log_level", "log_format"]

def openSections (tree : Tree) : Except Fault Tree := do
  openSection "observability" observabilityFields (← openSection "engine" engineFields tree)

def ofTree (tree : Tree) : Except Fault Settings := do
  let tree ← openSections tree
  return {
    serviceName := ← textAt "" ["service_name"] tree
    environment := ← textAt "" ["environment"] tree
    options := {
      strict := ← switchAt true ["engine", "strict_numeric_kinds"] tree
      trace := ← switchAt false ["engine", "trace_enabled"] tree }
    logLevel := ← textAt "info" ["observability", "log_level"] tree
    logFormat := ← textAt "pretty" ["observability", "log_format"] tree }

variable [FileReader]

/-- The settings in the file of that name; a file that is missing, or has no name, has none. -/
def fileLayer (around : Surroundings) (name : String) : Except Fault Layer :=
  if name.isEmpty then .ok []
  else match around.files.lookup (name ++ ".toml") with
    | none => .ok []
    | some text =>
      match FileReader.read? text with
      | some entries => .ok entries
      | none => .error (.notRead (name ++ ".toml"))

/-- All sources of settings, in the order in which they are laid over each other. -/
def layers (around : Surroundings) (service environment : String) : Except Fault (List Layer) := do
  let files ← ["default", environment, service].mapM (fileLayer around)
  return [[("service_name", .text service), ("environment", .text environment)]] ++ files ++
    [Variable.layer around.assignments]

/-- All sources of settings, laid over each other. -/
def merged (around : Surroundings) (service environment : String) : Except Fault Tree := do
  return (← layers around service environment).foldl Layer.overlay .empty

/-- The settings of a service in an environment. -/
def loadFrom (around : Surroundings) (service environment : String) : Except Fault Settings := do
  ofTree (← merged around service environment)

def environmentOf (around : Surroundings) : String :=
  (around.assignments.lookup "CFMT_ENV").getD "development"

def load (around : Surroundings) (service : String) : Except Fault Settings :=
  loadFrom around service (environmentOf around)

end Settings

end Phrasing
