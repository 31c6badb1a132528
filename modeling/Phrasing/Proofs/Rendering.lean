import Phrasing.Condition.Digest
import Phrasing.Proofs.Selection
import Phrasing.Proofs.Source
import Phrasing.Rendering

/-!
Rendering is substitution over the source with each quoted part replaced by the result chosen.
-/

namespace Phrasing.Source

open Grammar Outcome

/-- The text of the parts with each quoted one replaced by a result. -/
def replaceQuoted : List (List Char) → List String → List Char
  | plain :: _ :: parts, result :: results => plain ++ result.toList ++ replaceQuoted parts results
  | [plain], _ => plain
  | _, _ => []

variable {options : Options} {args : List Value}

variable [Hasher]

theorem decideCondition_fst (options : Options) (args : List Value) (index : Nat) (s : Stamped) :
    (Template.decideCondition options args index s).map Prod.fst = s.select options args := by
  unfold Template.decideCondition
  split
  · rw [← Stamped.selectTraced_fst]
    cases s.selectTraced options args <;> rfl
  · cases s.select options args <;> rfl

theorem exists_chosen {s : Stamped} {selection : Selection} {fallback : String}
    (hfallback : s.condition.fallback = some fallback)
    (h : s.select options args = .ok selection) :
    ∃ result, s.condition.Chosen selection result := by
  cases selection with
  | fallback => exact ⟨fallback, .fallback hfallback⟩
  | branch k => exact ⟨_, .branch (List.getElem?_eq_getElem (Stamped.lt_of_select h))⟩

variable {parts : List (List Char)} {conditions : List Stamped} {tail : String}

def selectAll (options : Options) (args : List Value) (conditions : List Stamped) :
    Except Failure (List Selection) := conditions.mapM fun s ↦ s.select options args

/-- The leads and the results chosen, one after the other. -/
def outputs : List Stamped → List Selection → String
  | s :: conditions, selection :: selected => s.condition.output selection ++ outputs conditions selected
  | _, _ => ""

theorem selectAll_cons (s : Stamped) (conditions : List Stamped) :
    selectAll options args (s :: conditions) = do
      let selection ← s.select options args
      let selected ← selectAll options args conditions
      return selection :: selected := List.mapM_cons

theorem decideAll_map (options : Options) (args : List Value) (conditions : List Stamped)
    (index : Nat) :
    (Template.decideAll options args index conditions).map (fun r ↦ (r.1, r.2.1)) =
      (selectAll options args conditions).map fun selected ↦ (outputs conditions selected, selected) := by
  induction conditions generalizing index with
  | nil => rfl
  | cons s conditions ih =>
    have hrest := ih (index + 1)
    rw [selectAll_cons, ← decideCondition_fst options args index, Template.decideAll]
    cases Template.decideCondition options args index s with
    | error => rfl
    | ok decision =>
      cases hdecide : Template.decideAll options args (index + 1) conditions <;>
        cases hselect : selectAll options args conditions <;>
        simp_all [Except.map, bind, Except.bind, pure, Except.pure, outputs]

variable {selected : List Selection}

/-- For each condition the result that is chosen. -/
inductive Results : List Stamped → List Selection → List String → Prop
  | nil : Results [] [] []
  | cons {s : Stamped} {selection : Selection} {result : String} {conditions : List Stamped}
      {selected : List Selection} {results : List String}
      (h : s.condition.Chosen selection result) (hlater : Results conditions selected results) :
      Results (s :: conditions) (selection :: selected) (result :: results)

theorem Parts.exists_results (h : Parts parts conditions tail)
    (hselected : selectAll options args conditions = .ok selected) : ∃ results : List String,
      Results conditions selected results ∧
        outputs conditions selected ++ tail = String.ofList (replaceQuoted parts results) := by
  induction h generalizing selected with
  | tail plain =>
    cases hselected
    exact ⟨[], .nil, by simp [outputs, replaceQuoted]⟩
  | condition plain hne hbody hparts ih =>
    rw [selectAll_cons] at hselected
    obtain ⟨selection, hselection, hrest⟩ := bind_eq_ok_iff.1 hselected
    obtain ⟨later, hlater, hrest⟩ := bind_eq_ok_iff.1 hrest
    cases hrest
    obtain ⟨results, hresults, htext⟩ := ih hlater
    obtain ⟨result, hresult⟩ := exists_chosen rfl hselection
    refine ⟨result :: results, .cons hresult hresults, ?_⟩
    rw [replaceQuoted, outputs, String.append_assoc, htext, hresult.output_eq]
    rw [← String.toList_inj]
    simp [stamped]

theorem selectAll_of_decideAll {index : Nat} {text : String} {events : List Event}
    (h : Template.decideAll options args index conditions = .ok (text, selected, events)) :
    selectAll options args conditions = .ok selected ∧ text = outputs conditions selected := by
  have hmap := decideAll_map options args conditions index
  rw [h] at hmap
  obtain ⟨selected', hselect, heq⟩ := map_eq_ok_iff.1 hmap.symm
  obtain ⟨rfl, rfl⟩ := Prod.mk.inj heq
  exact ⟨hselect, rfl⟩

theorem selectAll_of_decideAll_error {index : Nat} {failure : Failure}
    (h : Template.decideAll options args index conditions = .error failure) :
    selectAll options args conditions = .error failure := by
  have hmap := decideAll_map options args conditions index
  rw [h] at hmap
  exact map_eq_error_iff.1 hmap.symm

variable {t : Template}

theorem render_of_decideAll {text : String} {events : List Event}
    (h : Template.decideAll options args 0 t.conditions = .ok (text, selected, events)) :
    t.render options args = (substitute (text ++ t.tail) args).map (⟨·, selected, events⟩) := by
  rw [Template.render, h]
  exact bind_pure_eq_map

theorem render_of_decideAll_error {failure : Failure}
    (h : Template.decideAll options args 0 t.conditions = .error failure) :
    t.render options args = .error failure := by
  rw [Template.render, h]
  rfl

theorem render_map (options : Options) (args : List Value) (t : Template) :
    (t.render options args).map (fun r ↦ (r.output, r.selected)) = (do
      let selected ← selectAll options args t.conditions
      let output ← substitute (outputs t.conditions selected ++ t.tail) args
      return (output, selected)) := by
  cases hdecide : Template.decideAll options args 0 t.conditions with
  | error failure =>
    rw [render_of_decideAll_error hdecide, selectAll_of_decideAll_error hdecide]
    rfl
  | ok decision =>
    obtain ⟨text, selected, events⟩ := decision
    obtain ⟨hselect, rfl⟩ := selectAll_of_decideAll hdecide
    rw [render_of_decideAll hdecide, hselect, map_map]
    exact bind_pure_eq_map.symm

theorem render_eq_error_iff {failure : Failure} :
    t.render options args = .error failure ↔
      selectAll options args t.conditions = .error failure ∨
        ∃ selected, selectAll options args t.conditions = .ok selected ∧
          substitute (outputs t.conditions selected ++ t.tail) args = .error failure := by
  rw [← map_eq_error_iff, render_map, bind_eq_error_iff]
  apply or_congr_right
  apply exists_congr
  intro selected
  apply and_congr_right
  intro hselected
  constructor
  · intro h
    rcases bind_eq_error_iff.1 h with h | ⟨output, -, h⟩
    · exact h
    · cases h
  · intro h
    exact bind_eq_error_iff.2 (.inl h)

/-- The parts of a source are those of a template: leads and bodies by turns, and the tail. A body
alone gives the branches and the fallback of its condition. -/
structure Splits (parts : List (List Char)) (t : Template) : Prop where
  length_eq : parts.length = 2 * t.conditions.length + 1
  lead {i : Nat} {s : Stamped} : t.conditions[i]? = some s →
    parts[2 * i]? = some s.condition.lead.toList
  body {i : Nat} {s : Stamped} : t.conditions[i]? = some s →
    ∃ body, parts[2 * i + 1]? = some body ∧
      ∀ lead offset, Condition.read lead offset body = .ok { s.condition with lead := lead }
  tail : parts[2 * t.conditions.length]? = some t.tail.toList

/-- The outcome of a rendering is that of choosing a result for each quoted part, in order, and
then putting the arguments into the parts with the results in them. -/
structure Renders (parts : List (List Char)) (t : Template) (options : Options)
    (args : List Value) : Prop where
  selected {r : Rendering} : t.render options args = .ok r →
    selectAll options args t.conditions = .ok r.selected
  failed {before after : List Stamped} {s : Stamped} {selected : List Selection}
    {failure : Failure} : t.conditions = before ++ s :: after →
    selectAll options args before = .ok selected → s.select options args = .error failure →
    t.render options args = .error failure
  chosen {selected : List Selection} : selectAll options args t.conditions = .ok selected →
    selected.length = t.conditions.length ∧ ∃ results : List String,
      Results t.conditions selected results ∧
        (t.render options args).map (fun r ↦ (r.output, r.selected)) =
          (substitute (String.ofList (replaceQuoted parts results)) args).map (·, selected)

theorem Parts.length_eq (h : Parts parts conditions tail) :
    parts.length = 2 * conditions.length + 1 := by
  induction h with
  | tail => rfl
  | condition plain hne hbody hparts ih =>
    simp only [List.length_cons, ih]
    omega

theorem Parts.getElem?_tail (h : Parts parts conditions tail) :
    parts[2 * conditions.length]? = some tail.toList := by
  induction h with
  | tail => simp
  | condition plain hne hbody hparts ih => exact ih

theorem Parts.getElem? (h : Parts parts conditions tail) {i : Nat} {s : Stamped}
    (hs : conditions[i]? = some s) : parts[2 * i]? = some s.condition.lead.toList ∧
      ∃ body, parts[2 * i + 1]? = some body ∧
        ∀ lead offset, Condition.read lead offset body = .ok { s.condition with lead := lead } := by
  induction h generalizing i with
  | tail => simp at hs
  | @condition plain body parts branches fallback tail conditions hne hbody hparts ih =>
    cases i with
    | zero =>
      obtain rfl := Option.some.inj hs
      refine ⟨by simp [stamped], body, rfl, fun lead offset ↦ ?_⟩
      exact read_iff_body.2 ⟨rfl, fallback, rfl, hbody⟩
    | succ i => exact ih hs

theorem splits_of_compile {source : String} {t : Template} (h : compile source = .ok t) :
    Splits (source.toList.splitOn '\'') t := by
  have hparts := (compile_iff.1 h).1
  exact ⟨hparts.length_eq, fun hs ↦ (hparts.getElem? hs).1, fun hs ↦ (hparts.getElem? hs).2,
    hparts.getElem?_tail⟩

theorem renders_of_parts {t : Template} (h : Parts parts t.conditions t.tail) (options : Options)
    (args : List Value) : Renders parts t options args := by
  have hmap := render_map options args t
  constructor
  · intro r hr
    rw [hr] at hmap
    obtain ⟨selected, hselected, houtput⟩ := bind_eq_ok_iff.1 hmap.symm
    obtain ⟨output, -, hpair⟩ := bind_eq_ok_iff.1 houtput
    obtain ⟨-, rfl⟩ := Prod.mk.inj (Except.ok.inj hpair)
    exact hselected
  · intro before after s selected failure hconditions hbefore hs
    refine render_eq_error_iff.2 (.inl ?_)
    rw [hconditions]
    exact mapM_append_eq_error hbefore hs
  · intro selected hselected
    obtain ⟨results, hresults, htext⟩ := h.exists_results hselected
    refine ⟨length_of_mapM_eq_ok hselected, results, hresults, ?_⟩
    rw [hmap, hselected, ← htext]
    exact bind_pure_eq_map

theorem compile_of_not_mem {source : String} (h : '\'' ∉ source.toList) :
    compile source = .ok ⟨source, [], source, Template.indicesOf [] source, 1⟩ := by
  refine compile_iff.2 ⟨?_, rfl⟩
  rw [List.splitOn_eq_singleton h]
  simpa using Parts.tail source.toList

theorem format_of_compile {source : String} (h : compile source = .ok t) (args : List Value) :
    format source args = (do
      let selected ← selectAll .standard args t.conditions
      substitute (outputs t.conditions selected ++ t.tail) args) := by
  have houtput : format source args =
      ((t.render .standard args).map fun r ↦ (r.output, r.selected)).map Prod.fst := by
    rw [format, h, map_map]
    exact bind_pure_eq_map
  rw [houtput, render_map]
  cases selectAll .standard args t.conditions with
  | error failure => rfl
  | ok selected =>
    change ((substitute _ args >>= _).map _) = substitute _ args
    rw [bind_pure_eq_map, map_map]
    exact congrFun Except.map_id _

theorem format_of_not_mem {source : String} (h : '\'' ∉ source.toList) (args : List Value) :
    format source args = substitute source args := by
  rw [format_of_compile (compile_of_not_mem h)]
  change substitute ("" ++ source) args = _
  rw [String.empty_append]

/-- The conditions of a template are the quoted parts of its source, and rendering it is
substitution over the source with the results chosen in place of the quoted parts. A source without
a quote always compiles, and is then a text to put the arguments into. -/
theorem render_eq_substitute_parts (source : String) :
    (∀ t, compile source = .ok t → Splits (source.toList.splitOn '\'') t ∧
      ∀ options args, Renders (source.toList.splitOn '\'') t options args) ∧
    ('\'' ∉ source.toList → (∃ t, compile source = .ok t) ∧
      ∀ args, format source args = substitute source args) := by
  constructor
  · intro t h
    exact ⟨splits_of_compile h, fun options args ↦ renders_of_parts (compile_iff.1 h).1 options args⟩
  · intro h
    exact ⟨⟨_, compile_of_not_mem h⟩, format_of_not_mem h⟩

omit [Hasher] in
theorem render_eq_substitute_parts_message :
    (∃ t, @compile Digest.hasher "{0} '{0}=1:item|*:items'!" = .ok t ∧
      Splits ("{0} '{0}=1:item|*:items'!".toList.splitOn '\'') t ∧
      @Renders Digest.hasher ("{0} '{0}=1:item|*:items'!".toList.splitOn '\'') t .standard
        [.integer 2]) ∧
    '\'' ∉ "no {0}".toList ∧ (∃ t, @compile Digest.hasher "no {0}" = .ok t) ∧
      @format Digest.hasher "no {0}" [.integer 2] = substitute "no {0}" [.integer 2] := by
  let _ := Digest.hasher
  have hsome : (compile "{0} '{0}=1:item|*:items'!").toOption.isSome := by decide +kernel
  have hquote : '\'' ∉ "no {0}".toList := by decide
  have hplain := (render_eq_substitute_parts "no {0}").2 hquote
  obtain ⟨t, ht⟩ := Option.isSome_iff_exists.1 hsome
  have h := toOption_eq_some_iff.1 ht
  have hparts := (render_eq_substitute_parts "{0} '{0}=1:item|*:items'!").1 t h
  exact ⟨⟨t, h, hparts.1, hparts.2 _ _⟩, hquote, hplain.1, hplain.2 _⟩

end Phrasing.Source
