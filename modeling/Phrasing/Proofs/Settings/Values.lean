import Phrasing.Proofs.Settings.Sections

/-!
What each setting is converted from. The settings of a tree are those of the values that stand at
their paths, and there are none exactly if one of the values cannot be converted.
-/

namespace Phrasing.Settings

open Outcome

inductive Setting where
  | serviceName
  | environment
  | strict
  | trace
  | logLevel
  | logFormat
deriving DecidableEq

namespace Setting

def all : List Setting := [serviceName, environment, strict, trace, logLevel, logFormat]

theorem mem_all (setting : Setting) : setting ∈ all := by
  cases setting <;> simp [all]

def path : Setting → List String
  | serviceName => ["service_name"]
  | environment => ["environment"]
  | strict => ["engine", "strict_numeric_kinds"]
  | trace => ["engine", "trace_enabled"]
  | logLevel => ["observability", "log_level"]
  | logFormat => ["observability", "log_format"]

/-- What a setting is when nothing sets it. -/
def builtin : Setting → Tree
  | serviceName | environment => .text ""
  | strict => .bool true
  | trace => .bool false
  | logLevel => .text "info"
  | logFormat => .text "pretty"

/-- What a setting is when neither a file nor a variable sets it. -/
def fallback (service place : String) : Setting → Tree
  | serviceName => .text service
  | environment => .text place
  | setting => setting.builtin

/-- Converts a value to what the setting holds, which is a truth value or a text. -/
def convert? : Setting → Tree → Option Tree
  | strict, value | trace, value => value.switch?.map .bool
  | _, value => value.text?.map .text

/-- The first name of the path of a setting. -/
def first : Setting → String
  | serviceName => "service_name"
  | environment => "environment"
  | strict | trace => "engine"
  | logLevel | logFormat => "observability"

/-- What a setting is read from, given what stands under the first name of its path. -/
def under? : Setting → Tree → Option Tree
  | serviceName, top | environment, top => some top
  | strict, top => top.field? engineFields "strict_numeric_kinds"
  | trace, top => top.field? engineFields "trace_enabled"
  | logLevel, top => top.field? observabilityFields "log_level"
  | logFormat, top => top.field? observabilityFields "log_format"

/-- What a setting is read from. -/
def found? (tree : Tree) (setting : Setting) : Option Tree :=
  (tree.get? [setting.first]).bind setting.under?

end Setting

def get (s : Settings) : Setting → Tree
  | .serviceName => .text s.serviceName
  | .environment => .text s.environment
  | .strict => .bool s.options.strict
  | .trace => .bool s.options.trace
  | .logLevel => .text s.logLevel
  | .logFormat => .text s.logFormat

/-- Converts the value of a setting, or names the setting whose value cannot be converted. -/
def converted {α : Type} (read : Tree → Option α) (fault : List String → Fault) (setting : Setting)
    (value : Setting → Tree) : Except Fault α :=
  match read (value setting) with
  | some x => .ok x
  | none => .error (fault setting.path)

/-- The settings with these values. -/
def ofValues (value : Setting → Tree) : Except Fault Settings := do
  return {
    serviceName := ← converted Tree.text? .notText .serviceName value
    environment := ← converted Tree.text? .notText .environment value
    options := {
      strict := ← converted Tree.switch? .notSwitch .strict value
      trace := ← converted Tree.switch? .notSwitch .trace value }
    logLevel := ← converted Tree.text? .notText .logLevel value
    logFormat := ← converted Tree.text? .notText .logFormat value }

variable {tree opened : Tree} {s : Settings} {value : Setting → Tree}

theorem text?_outline (tree : Tree) : tree.outline.text? = tree.text? := by
  cases tree <;> rfl

theorem switch?_outline (tree : Tree) : tree.outline.switch? = tree.switch? := by
  cases tree <;> rfl

theorem convert?_outline (setting : Setting) (tree : Tree) :
    setting.convert? tree.outline = setting.convert? tree := by
  cases setting <;> simp only [Setting.convert?, text?_outline, switch?_outline]

theorem convert?_builtin (setting : Setting) :
    setting.convert? setting.builtin = some setting.builtin := by
  cases setting <;> rfl

theorem get?_openSections (h : openSections tree = .ok opened) (setting : Setting) :
    opened.get? setting.path = setting.found? tree := by
  obtain ⟨engine, hengine, hobservability⟩ := bind_eq_ok_iff.1 h
  have htop {name : String} (hengine' : name ≠ "engine")
      (hobservability' : name ≠ "observability") : opened.get? [name] = tree.get? [name] :=
    (get?_openSection hobservability hobservability' []).trans
      (get?_openSection hengine hengine' [])
  cases setting with
  | serviceName | environment =>
    exact (htop (by decide) (by decide)).trans (Option.bind_fun_some _).symm
  | strict | trace =>
    exact (get?_openSection hobservability (by decide) _).trans (field?_openSection hengine _)
  | logLevel | logFormat =>
    refine (field?_openSection hobservability _).trans ?_
    rw [get?_openSection hengine (by decide)]
    rfl

theorem readAt_eq_converted {α : Type} {read : Tree → Option α} {fault : List String → Fault}
    {fallback : α} {setting : Setting} (h : read setting.builtin = some fallback) :
    readAt read fault fallback setting.path tree =
      converted read fault setting fun s ↦ (tree.get? s.path).getD s.builtin := by
  unfold readAt converted
  dsimp only
  cases tree.get? setting.path with
  | none =>
    rw [Option.getD_none, h]
  | some found => rfl

theorem ofTree_eq_bind (tree : Tree) : ofTree tree = (do
    let opened ← openSections tree
    ofValues fun s ↦ (opened.get? s.path).getD s.builtin) := by
  unfold ofTree
  congr
  funext opened
  have htext {setting : Setting} {fallback : String} (h : setting.builtin.text? = some fallback) :
      textAt fallback setting.path opened = _ := readAt_eq_converted h
  have hswitch {setting : Setting} {fallback : Bool} (h : setting.builtin.switch? = some fallback) :
      switchAt fallback setting.path opened = _ := readAt_eq_converted h
  rw [ofValues, ← htext rfl, ← htext rfl, ← hswitch rfl, ← hswitch rfl, ← htext rfl, ← htext rfl]
  rfl

theorem ofTree_eq_ofValues (h : ∀ name ∈ sections, tree.IsSection [name]) :
    ofTree tree = ofValues fun s ↦ (tree.get? s.path).getD s.builtin := by
  rw [ofTree_eq_bind, openSections, openSection_of_isSection (h "engine" (by simp [sections]))]
  change (openSection _ _ tree >>= _) = _
  rw [openSection_of_isSection (h "observability" (by simp [sections]))]
  rfl

theorem converted_eq_ok_iff {α : Type} {read : Tree → Option α} {fault : List String → Fault}
    {setting : Setting} {x : α} :
    converted read fault setting value = .ok x ↔ read (value setting) = some x := by
  unfold converted
  cases read (value setting) with
  | none => simp
  | some found => simp

/-- All values are converted, or there are no settings. -/
theorem ofValues_eq_ok_iff :
    ofValues value = .ok s ↔
      ∀ setting, setting.convert? (value setting) = some (s.get setting) := by
  simp only [ofValues, bind_eq_ok_iff, converted_eq_ok_iff]
  constructor
  · intro h
    obtain ⟨serviceName, hservice, environment, hplace, strict, hstrict, trace, htrace, logLevel,
      hlevel, logFormat, hformat, h⟩ := h
    obtain rfl := Except.ok.inj h
    intro setting
    cases setting <;> simp [Setting.convert?, get, *]
  · intro h
    have hservice := h .serviceName
    have hplace := h .environment
    have hstrict := h .strict
    have htrace := h .trace
    have hlevel := h .logLevel
    have hformat := h .logFormat
    simp only [Setting.convert?, get, Option.map_eq_some_iff, Tree.text.injEq, Tree.bool.injEq,
      exists_eq_right] at hservice hplace hstrict htrace hlevel hformat
    exact ⟨_, hservice, _, hplace, _, hstrict, _, htrace, _, hlevel, _, hformat, rfl⟩

theorem exists_ofValues (h : ∀ setting : Setting, setting.convert? (value setting) ≠ none) :
    ∃ s, ofValues value = .ok s := by
  let text (setting : Setting) := (value setting).text?.getD ""
  let switch (setting : Setting) := (value setting).switch?.getD false
  refine ⟨⟨text .serviceName, text .environment, ⟨switch .strict, switch .trace⟩, text .logLevel,
    text .logFormat⟩, ofValues_eq_ok_iff.2 fun setting ↦ ?_⟩
  obtain ⟨x, hx⟩ := Option.ne_none_iff_exists'.1 (h setting)
  cases setting with
  | strict | trace =>
    obtain ⟨b, hb, rfl⟩ := Option.map_eq_some_iff.1 hx
    simp only [Setting.convert?, get, switch, hb, Option.map_some, Option.getD_some]
  | _ =>
    obtain ⟨t, ht, rfl⟩ := Option.map_eq_some_iff.1 hx
    simp only [Setting.convert?, get, text, ht, Option.map_some, Option.getD_some]

theorem exists_error_iff :
    (∃ fault, ofValues value = .error fault) ↔
      ∃ setting : Setting, setting.convert? (value setting) = none := by
  constructor
  · intro h
    obtain ⟨fault, hfault⟩ := h
    apply Classical.byContradiction
    intro hall
    obtain ⟨s, hs⟩ := exists_ofValues fun setting hnone ↦ hall ⟨setting, hnone⟩
    cases hfault.symm.trans hs
  · intro h
    obtain ⟨setting, hnone⟩ := h
    refine exists_error_of_ne_ok fun s hs ↦ ?_
    cases hnone.symm.trans (ofValues_eq_ok_iff.1 hs setting)

/-- What a list or a table holds does not matter where a setting is read from it. -/
theorem ofValues_outline (value : Setting → Tree) :
    ofValues (fun setting ↦ (value setting).outline) = ofValues value := by
  simp only [ofValues, converted, text?_outline, switch?_outline]

theorem ofTree_eq_ok_iff : ofTree tree = .ok s ↔
    (∀ name ∈ sections, ∀ top, tree.get? [name] = some top → top.isSection = true) ∧
      ∀ setting : Setting,
        setting.convert? ((setting.found? tree).getD setting.builtin) = some (s.get setting) := by
  rw [ofTree_eq_bind, bind_eq_ok_iff, ← exists_openSections_iff]
  constructor
  · intro h
    obtain ⟨opened, hopened, hvalues⟩ := h
    refine ⟨⟨opened, hopened⟩, fun setting ↦ ?_⟩
    rw [← get?_openSections hopened]
    exact ofValues_eq_ok_iff.1 hvalues setting
  · intro h
    obtain ⟨⟨opened, hopened⟩, hsettings⟩ := h
    refine ⟨opened, hopened, ofValues_eq_ok_iff.2 fun setting ↦ ?_⟩
    rw [get?_openSections hopened]
    exact hsettings setting

end Phrasing.Settings
