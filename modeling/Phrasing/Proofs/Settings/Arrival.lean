import Phrasing.Proofs.Grammar.Operand
import Phrasing.Proofs.Settings.Override

/-!
How a text setting given by a variable arrives.

The text of the variable is read as a truth value, a whole number or a float where it can be, and
then written again. Nothing else about the settings depends on it.
-/

namespace Phrasing.Grammar

/-- The words for infinity and for what is not a number, in any case, with an optional sign. -/
inductive Special : List Char → Binary64 → Prop
  | infinity {sign word : List Char} {negative : Bool} (hsign : Sign sign negative)
      (hword : word.map Char.toLower = ['i', 'n', 'f'] ∨
        word.map Char.toLower = ['i', 'n', 'f', 'i', 'n', 'i', 't', 'y']) :
      Special (sign ++ word) (.infinity negative)
  | nan {sign word : List Char} {negative : Bool} (hsign : Sign sign negative)
      (hword : word.map Char.toLower = ['n', 'a', 'n']) :
      Special (sign ++ word) (.nan (.quiet negative))

variable {s word : List Char} {negative : Bool} {x : Binary64}

theorem special_of_ofWord? {sign : List Char} (hsign : Sign sign negative)
    (h : Binary64.ofWord? negative word = some x) : Special (sign ++ word) x := by
  unfold Binary64.ofWord? at h
  dsimp only at h
  split at h
  · next hword =>
    cases h
    exact .infinity hsign hword
  split at h
  · next hword =>
    cases h
    exact .nan hsign hword
  · cases h

theorem plain_of_map_toLower {c : Char} {rest : List Char} (hplus : c ≠ '+') (hminus : c ≠ '-')
    (h : word.map Char.toLower = c :: rest) : Plain word := by
  intro first hfirst
  cases word with
  | nil => cases hfirst
  | cons c' word =>
    obtain rfl := Option.some.inj hfirst
    obtain ⟨hc, -⟩ := List.cons.inj h
    constructor
    · rintro rfl
      exact hplus hc.symm
    · rintro rfl
      exact hminus hc.symm

theorem Special.read? (h : Special s x) : Binary64.read? s = some x := by
  cases h with
  | infinity hsign hword =>
    have hplain := hword.elim (plain_of_map_toLower (by decide) (by decide))
      (plain_of_map_toLower (by decide) (by decide))
    simp only [Binary64.read?, splitSign_append hsign hplain, Binary64.ofWord?, if_pos hword]
    rfl
  | nan hsign hword =>
    have hplain := plain_of_map_toLower (by decide) (by decide) hword
    simp only [Binary64.read?, splitSign_append hsign hplain, Binary64.ofWord?, hword]
    rfl

theorem read?_iff : Binary64.read? s = some x ↔ Real s x ∨ Special s x := by
  constructor
  · intro h
    obtain ⟨sign, hsign, hs⟩ := sign_splitSign s
    simp only [Binary64.read?] at h
    generalize Numeral.splitSign s = p at h hsign hs
    rw [hs]
    cases hword : Binary64.ofWord? p.1 p.2 with
    | some y =>
      rw [hword] at h
      cases h
      exact .inr (special_of_ofWord? hsign hword)
    | none =>
      rw [hword] at h
      obtain ⟨d, hd, rfl⟩ := Option.map_eq_some_iff.1 h
      exact .inl (.mk hsign (decimalRead?_iff.1 hd))
  · intro h
    exact h.elim Real.read? Special.read?

end Phrasing.Grammar

namespace Phrasing.Settings

open Outcome

/-- A word for this truth value, in any case. -/
def IsTruthWord (v : String) (b : Bool) : Prop := v.toList.map Char.toLower = (toString b).toList

/-- The text that the text of a variable becomes: that of a truth value, else of a whole number,
else of a float, else the text itself. -/
inductive Arrives (v : String) : String → Prop
  | truth {b : Bool} (h : IsTruthWord v b) : Arrives v (toString b)
  | whole {n : Int} (htruth : ¬∃ b, IsTruthWord v b) (h : Grammar.Literal v.toList n) :
      Arrives v (toString n)
  | float {x : Binary64} (htruth : ¬∃ b, IsTruthWord v b)
      (hwhole : ¬∃ n, Grammar.Literal v.toList n)
      (h : Grammar.Real v.toList x ∨ Grammar.Special v.toList x) :
      Arrives v (String.ofList (Layout.positional.write x))
  | same (htruth : ¬∃ b, IsTruthWord v b) (hwhole : ¬∃ n, Grammar.Literal v.toList n)
      (hreal : ¬∃ x, Grammar.Real v.toList x) (hspecial : ¬∃ x, Grammar.Special v.toList x) :
      Arrives v v

theorem text?_bool (b : Bool) : (Tree.bool b).text? = some (toString b) := by
  cases b <;> rfl

theorem text?_integer (n : Int) : (Tree.integer n).text? = some (toString n) := by
  cases n with
  | ofNat n => rfl
  | negSucc n =>
    have hnegative : decide (Int.negSucc n < 0) = true := decide_eq_true (Int.negSucc_lt_zero n)
    have hsign : "-" = String.ofList ['-'] := rfl
    change _ = some ("-" ++ String.ofList (Nat.toDigits 10 (n + 1)))
    rw [hsign, ← String.ofList_append, Tree.text?, hnegative]
    rfl

theorem value_truth {v : String} {b : Bool} (h : IsTruthWord v b) : Variable.value v = .bool b := by
  unfold IsTruthWord at h
  unfold Variable.value
  rw [h]
  cases b <;> rfl

theorem value_of_not_truth {v : String} (h : ¬∃ b, IsTruthWord v b) :
    Variable.value v =
      match Numeral.literal? v.toList with
      | some n => .integer n
      | none =>
        match Binary64.read? v.toList with
        | some x => .float x
        | none => .text v := by
  have htrue : v.toList.map Char.toLower ≠ ['t', 'r', 'u', 'e'] := fun heq ↦ h ⟨true, heq⟩
  have hfalse : v.toList.map Char.toLower ≠ ['f', 'a', 'l', 's', 'e'] := fun heq ↦ h ⟨false, heq⟩
  unfold Variable.value
  exact (if_neg htrue).trans (if_neg hfalse)

theorem exists_arrives (v : String) :
    ∃ arrived, (Variable.value v).text? = some arrived ∧ Arrives v arrived := by
  by_cases htruth : ∃ b, IsTruthWord v b
  · obtain ⟨b, hb⟩ := htruth
    exact ⟨_, value_truth hb ▸ text?_bool b, .truth hb⟩
  rw [value_of_not_truth htruth]
  cases hwhole : Numeral.literal? v.toList with
  | some n => exact ⟨_, text?_integer n, .whole htruth (Grammar.literal?_iff.1 hwhole)⟩
  | none =>
    have hnone : ¬∃ n, Grammar.Literal v.toList n := by
      rintro ⟨n, hn⟩
      cases hwhole.symm.trans (Grammar.literal?_iff.2 hn)
    cases hfloat : Binary64.read? v.toList with
    | some x => exact ⟨_, rfl, .float htruth hnone (Grammar.read?_iff.1 hfloat)⟩
    | none =>
      refine ⟨_, rfl, .same htruth hnone ?_ ?_⟩
      · rintro ⟨x, hx⟩
        cases hfloat.symm.trans hx.read?
      · rintro ⟨x, hx⟩
        cases hfloat.symm.trans hx.read?

namespace Setting

def texts : List Setting := [serviceName, environment, logLevel, logFormat]

/-- The variable that gives a setting. -/
def variableName : Setting → String
  | serviceName => "CFMT_SERVICE_NAME"
  | environment => "CFMT_ENVIRONMENT"
  | strict => "CFMT_ENGINE__STRICT_NUMERIC_KINDS"
  | trace => "CFMT_ENGINE__TRACE_ENABLED"
  | logLevel => "CFMT_OBSERVABILITY__LOG_LEVEL"
  | logFormat => "CFMT_OBSERVABILITY__LOG_FORMAT"

end Setting

/-! ## With a variable and without it -/

theorem convert?_text {setting : Setting} {value : Tree} {t : String}
    (hsetting : setting ∈ Setting.texts) (h : value.text? = some t) :
    setting.convert? value = some (.text t) := by
  cases setting with
  | strict | trace => simp [Setting.texts] at hsetting
  | _ => exact Option.map_eq_some_iff.2 ⟨t, h, rfl⟩

theorem variableLayer_cons (setting : Setting) (v : String) (after : List (String × String)) :
    Variable.layer ((setting.variableName, v) :: after) =
      (setting.key, Variable.value v) :: Variable.layer after := by
  cases setting <;> rfl

section Reader

variable [FileReader] {files before after : List (String × String)} {service place : String}
  {texts : List Layer} {setting : Setting} {s : Settings}

/-- The tree of all sources but the variables, and then some of the variables. -/
def base (texts : List Layer) (service place : String) (before : List (String × String)) : Tree :=
  (Variable.layer before).overlay ((callLayer service place :: texts).foldl Layer.overlay .empty)

theorem merged_append
    (htexts : ["default", place, service].mapM (fileLayer ⟨files, before ++ after⟩) = .ok texts) :
    merged ⟨files, before ++ after⟩ service place =
      .ok ((Variable.layer after).foldl Tree.put (base texts service place before)) := by
  rw [merged_eq htexts, ← List.cons_append, List.foldl_append, base]
  change Except.ok (List.foldl _ _ (Variable.layer (before ++ after))) = _
  rw [Variable.layer, List.filterMap_append, List.foldl_append]
  rfl

theorem exists_texts_of_merged {around : Surroundings} {tree : Tree}
    (h : merged around service place = .ok tree) :
    ∃ texts, ["default", place, service].mapM (fileLayer around) = .ok texts := by
  obtain ⟨sources, hsources, -⟩ := bind_eq_ok_iff.1 h
  obtain ⟨texts, htexts, -⟩ := bind_eq_ok_iff.1 hsources
  exact ⟨texts, htexts⟩

/-- A text setting that a variable gives is what becomes of the text of the variable. All other
settings are as they are without the variable, save in a section that is a list without it: a table
takes the place of the list, and the settings beside the one are the built-in ones. -/
theorem text_variable_arrives (hsetting : setting ∈ Setting.texts) (v : String)
    (hload : loadFrom ⟨files, before ++ after⟩ service place = .ok s)
    (hafter : ∀ tree ∈ (Variable.layer after).trees,
      tree.Orderly ∧ tree.get? setting.path = none) :
    ∃ tree s' arrived, merged ⟨files, before ++ after⟩ service place = .ok tree ∧
      loadFrom ⟨files, before ++ (setting.variableName, v) :: after⟩ service place = .ok s' ∧
        s'.get setting = .text arrived ∧ Arrives v arrived ∧
        ∀ other : Setting, other ≠ setting →
          (¬setting.ListedWith tree other → s'.get other = s.get other) ∧
            (setting.ListedWith tree other → s'.get other = other.builtin) := by
  obtain ⟨tree, hmerged, htree⟩ := bind_eq_ok_iff.1 hload
  obtain ⟨texts, htexts⟩ := exists_texts_of_merged hmerged
  obtain rfl := Except.ok.inj ((merged_append htexts).symm.trans hmerged)
  -- The files are read in the same way whatever the variables are.
  have htexts' : ["default", place, service].mapM
      (fileLayer ⟨files, before ++ (setting.variableName, v) :: after⟩) = .ok texts := htexts
  obtain ⟨arrived, hvalue, harrives⟩ := exists_arrives v
  have hentries := Layer.admissible_of_orderly (distinct_variableLayer after)
    fun tree htree ↦ (hafter tree htree).1
  have hfirst := Overrides.put_key setting (isTable_variableValue v) (base texts service place before)
  have hall := hfirst.foldl_put hentries
    fun entry hentry ↦ (hafter _ (List.mem_map_of_mem hentry)).2
  obtain ⟨s', hs', hget, hothers⟩ := hall.ofTree htree (convert?_text hsetting hvalue)
  refine ⟨_, s', arrived, hmerged, bind_eq_ok_iff.2 ⟨_, merged_append htexts', ?_⟩, hget, harrives,
    hothers⟩
  rw [variableLayer_cons]
  exact hs'

end Reader

theorem text_variable_arrives_level :
    let files := [("default.toml", "engine = [false]\nobservability.log_level = \"warn\"")]
    let before := [("CFMT_SERVICE_NAME", "till")]
    let after := [("CFMT_OBSERVABILITY__LOG_FORMAT", "json")]
    let s : Settings := ⟨"till", "test", ⟨false, false⟩, "warn", "json"⟩
    Setting.logLevel ∈ Setting.texts ∧
      loadFrom ⟨files, before ++ after⟩ "shop" "test" = .ok s ∧
      (∀ tree ∈ (Variable.layer after).trees,
        tree.Orderly ∧ tree.get? Setting.logLevel.path = none) ∧
      ∃ tree s' arrived, merged ⟨files, before ++ after⟩ "shop" "test" = .ok tree ∧
        loadFrom ⟨files, before ++ ("CFMT_OBSERVABILITY__LOG_LEVEL", "-1e2") :: after⟩ "shop" "test" =
          .ok s' ∧
        s'.get .logLevel = .text arrived ∧ Arrives "-1e2" arrived ∧
        ∀ other : Setting, other ≠ .logLevel →
          (¬Setting.logLevel.ListedWith tree other → s'.get other = s.get other) ∧
            (Setting.logLevel.ListedWith tree other → s'.get other = other.builtin) := by
  intro files before after s
  have hsetting : Setting.logLevel ∈ Setting.texts := by simp [Setting.texts]
  have hload : loadFrom ⟨files, before ++ after⟩ "shop" "test" = .ok s :=
    toOption_eq_some_iff.1 (by decide +kernel)
  have hafter : ∀ tree ∈ (Variable.layer after).trees,
      tree.Orderly ∧ tree.get? Setting.logLevel.path = none := by decide
  exact ⟨hsetting, hload, hafter, text_variable_arrives hsetting "-1e2" hload hafter⟩

/-- The zeros that a whole number starts with are lost. -/
theorem leading_zeros_lost :
    (∃ s, loadFrom ⟨[], []⟩ "svc" "test" = .ok s) ∧
      ¬∃ s, loadFrom ⟨[], [("CFMT_SERVICE_NAME", "007")]⟩ "svc" "test" = .ok s ∧
        s.serviceName = "007" := by
  have hnone : loadFrom ⟨[], []⟩ "svc" "test" =
      .ok ⟨"svc", "test", ⟨true, false⟩, "info", "pretty"⟩ := rfl
  have hseven : loadFrom ⟨[], [("CFMT_SERVICE_NAME", "007")]⟩ "svc" "test" =
      .ok ⟨"7", "test", ⟨true, false⟩, "info", "pretty"⟩ := rfl
  refine ⟨⟨_, hnone⟩, ?_⟩
  rintro ⟨s, hs, hname⟩
  obtain rfl := Except.ok.inj (hseven.symm.trans hs)
  exact absurd hname (by decide)

end Phrasing.Settings
