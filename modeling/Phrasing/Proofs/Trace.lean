import Phrasing.Proofs.Agreement
import Phrasing.Proofs.Printing.BodyText

/-!
A trace changes nothing else, and tells for each condition which comparisons were made and what came of
them, so that the selections can be read off its lines.
-/

namespace Phrasing

open Outcome Source

namespace Event

/-- The selection that is made when an event is told. -/
def selection? : Event → Option Selection
  | condition .. => none
  | branch index _ holds => if holds then some (.branch index) else none
  | fallback => some .fallback

def verdict (holds : Bool) : List Char := if holds then "MATCHED".toList else "NOT_MATCHED".toList

theorem head?_line_condition (index : Nat) (c : Condition) :
    (condition index c).line.toList.head? = some 'c' := by
  -- unfolding `line` by its equations is slow, because of the texts in it
  change ("conditions[" ++ toString index ++ "]: 开始评估 " ++ String.ofList c.write ++ " (共 " ++
    toString c.branches.length ++ " 个分支)").toList.head? = some 'c'
  simp

theorem toList_line_branch (index : Nat) (b : Branch) (holds : Bool) :
    (branch index b holds).line.toList = "branches[".toList ++ Nat.toDigits 10 index ++
      ']' :: (": ".toList ++ b.write ++ " => ".toList ++ verdict holds) := by
  change ("branches[" ++ toString index ++ "]: " ++ String.ofList b.write ++ " => " ++
    (if holds then "MATCHED" else "NOT_MATCHED")).toList = _
  cases holds <;> simp [verdict]

theorem matched_ne_not_matched (s s' : List Char) :
    s ++ " => ".toList ++ verdict true ≠ s' ++ " => ".toList ++ verdict false := by
  intro h
  rw [List.append_assoc] at h
  have hends : " => ".toList ++ verdict true = verdict false := (List.append_inj' h rfl).2
  exact absurd hends (by decide)

theorem verdict_inj {s s' : List Char} {holds holds' : Bool}
    (h : s ++ " => ".toList ++ verdict holds = s' ++ " => ".toList ++ verdict holds') :
    holds = holds' := by
  cases holds <;> cases holds'
  · rfl
  · exact absurd h.symm (matched_ne_not_matched s' s)
  · exact absurd h (matched_ne_not_matched s s')
  · rfl

theorem not_mem_front (index : Nat) : ']' ∉ "branches[".toList ++ Nat.toDigits 10 index := by
  intro h
  rcases List.mem_append.1 h with h | h
  · exact absurd h (by decide)
  · exact absurd (Nat.isDigit_of_mem_toDigits (by decide) (by decide) h) (by decide)

/-- The first letter of a line tells what kind of event it is. -/
theorem head?_line (e : Event) : e.line.toList.head? = some (match e with
    | condition .. => 'c'
    | branch .. => 'b'
    | fallback => 'e') := by
  cases e with
  | condition index c => exact head?_line_condition index c
  | branch index b holds => rw [toList_line_branch]; rfl
  | fallback => rfl

/-- Lines that read the same tell the same selection. -/
theorem selection?_eq_of_line_eq {e e' : Event} (h : e.line = e'.line) :
    e.selection? = e'.selection? := by
  have hhead : e.line.toList.head? = e'.line.toList.head? := by rw [h]
  rw [head?_line, head?_line] at hhead
  cases e with
  | condition index c =>
    cases e' with
    | condition => rfl
    | branch | fallback => cases hhead
  | branch index b holds =>
    cases e' with
    | condition | fallback => cases hhead
    | branch index' b' holds' =>
      have hchars := congrArg String.toList h
      rw [toList_line_branch, toList_line_branch] at hchars
      obtain ⟨hfront, hrest⟩ :=
        Grammar.eq_of_append_cons (not_mem_front index) (not_mem_front index') hchars
      have hdigits := congrArg Numeral.natural? (List.append_cancel_left hfront)
      rw [Numeral.natural?_toDigits, Numeral.natural?_toDigits] at hdigits
      obtain rfl := Option.some.inj hdigits
      rw [selection?, selection?, verdict_inj hrest]
  | fallback =>
    cases e' with
    | condition | branch => cases hhead
    | fallback => rfl

theorem filterMap_eq_of_lines_eq {trace trace' : List Event}
    (h : trace.map line = trace'.map line) :
    trace.filterMap selection? = trace'.filterMap selection? := by
  induction trace generalizing trace' with
  | nil =>
    cases trace' with
    | nil => rfl
    | cons => cases h
  | cons e trace ih =>
    cases trace' with
    | nil => cases h
    | cons e' trace' =>
      obtain ⟨he, hrest⟩ := List.cons.inj h
      rw [List.filterMap_cons, List.filterMap_cons, selection?_eq_of_line_eq he, ih hrest]

end Event

namespace Selection

/-- The number of events that a trace has for a condition. -/
def events (c : Condition) : Selection → Nat
  | branch m => m + 2
  | fallback => c.branches.length + 2

end Selection

variable {options : Options} {args : List Value} {selection : Selection} {selected : List Selection}
  {trace : List Event}

namespace Branch.Account

variable {branches : List Branch} {index : Nat}

theorem filterMap_passed (branches : List Branch) (index : Nat) :
    (passed index branches).filterMap Event.selection? = [] := by
  refine List.filterMap_eq_nil_iff.2 fun e he ↦ ?_
  obtain ⟨⟨b, i⟩, -, rfl⟩ := List.mem_map.1 he
  rfl

theorem filterMap_selection? (h : Account options args index branches selection trace) :
    trace.filterMap Event.selection? = [selection] := by
  cases h with
  | branch => rw [List.filterMap_append, filterMap_passed]; rfl
  | fallback => rw [List.filterMap_append, filterMap_passed]; rfl

theorem length_eq {c : Condition} (h : Account options args 0 c.branches selection trace) :
    trace.length + 1 = selection.events c := by
  generalize hbranches : c.branches = branches at h
  cases h with
  | branch => simp [Selection.events, length_passed]
  | fallback => simp [Selection.events, length_passed, hbranches]

end Branch.Account

namespace Template

/-- A trace of conditions that are counted from `index`: the heading of each, and then the account of
what was selected. -/
inductive Accounts (options : Options) (args : List Value) :
    Nat → List Stamped → List Selection → List Event → Prop
  | nil (index : Nat) : Accounts options args index [] [] []
  | cons {index : Nat} {s : Stamped} {conditions : List Stamped} {selection : Selection}
      {selected : List Selection} {events later : List Event}
      (h : Branch.Account options args 0 s.condition.branches selection events)
      (hlater : Accounts options args (index + 1) conditions selected later) :
      Accounts options args index (s :: conditions) (selection :: selected)
        (.condition index s.condition :: events ++ later)

namespace Accounts

variable {index : Nat} {conditions : List Stamped}

theorem filterMap_selection? (h : Accounts options args index conditions selected trace) :
    trace.filterMap Event.selection? = selected := by
  induction h with
  | nil => rfl
  | cons h hlater ih =>
    rw [List.cons_append, List.filterMap_cons_none rfl, List.filterMap_append,
      h.filterMap_selection?, ih]
    rfl

theorem length_eq (h : Accounts options args index conditions selected trace) :
    trace.length = (List.zipWith (fun s selection ↦ selection.events s.condition) conditions
      selected).foldr (· + ·) 0 := by
  induction h with
  | nil => rfl
  | cons h hlater ih =>
    rw [List.zipWith_cons_cons, List.foldr_cons, ← ih, ← h.length_eq, List.cons_append,
      List.length_cons, List.length_append]
    omega

end Accounts

variable [Hasher] {index : Nat} {conditions : List Stamped} {text : String}

theorem accounts_of_decideAll (htrace : options.trace = true)
    (h : decideAll options args index conditions = .ok (text, selected, trace)) :
    Accounts options args index conditions selected trace := by
  induction conditions generalizing index text selected trace with
  | nil =>
    cases h
    exact .nil index
  | cons s conditions ih =>
    obtain ⟨⟨selection, events⟩, hdecide, h⟩ := bind_eq_ok_iff.1 h
    obtain ⟨⟨text, selected, later⟩, hlater, h⟩ := bind_eq_ok_iff.1 h
    cases h
    rw [decideCondition, if_pos htrace] at hdecide
    obtain ⟨⟨selection, events⟩, hselect, heq⟩ := map_eq_ok_iff.1 hdecide
    cases heq
    exact .cons (Stamped.account_of_selectTraced hselect) (ih hlater)

theorem decideAll_untraced (htrace : options.trace = false) (conditions : List Stamped)
    (index : Nat) : decideAll options args index conditions =
      (selectAll options args conditions).map fun selected ↦
        (outputs conditions selected, selected, []) := by
  induction conditions generalizing index with
  | nil => rfl
  | cons s conditions ih =>
    rw [decideAll, decideCondition, if_neg (by simp [htrace]), selectAll_cons, ih]
    cases s.select options args with
    | error => rfl
    | ok selection => cases selectAll options args conditions <;> rfl

/-- The trace that is asked for has no part in what is selected. -/
theorem selectAll_trace (strict : Bool) (conditions : List Stamped) :
    selectAll ⟨strict, false⟩ args conditions = selectAll ⟨strict, true⟩ args conditions := by
  have hevaluate : ∀ b : Branch, b.evaluate ⟨strict, false⟩ args = b.evaluate ⟨strict, true⟩ args :=
    fun _ ↦ rfl
  refine (SameUnless.selectAll fun s _ b _ ↦ ?_).eq
  rw [hevaluate b]
  exact .same _

theorem render_untraced (strict : Bool) (args : List Value) (t : Template) :
    t.render ⟨strict, false⟩ args =
      (t.render ⟨strict, true⟩ args).map (fun r ↦ { r with trace := [] }) := by
  have huntraced := @decideAll_untraced ⟨strict, false⟩ args _ rfl t.conditions 0
  rw [selectAll_trace] at huntraced
  cases hdecide : decideAll ⟨strict, true⟩ args 0 t.conditions with
  | error failure =>
    rw [selectAll_of_decideAll_error hdecide] at huntraced
    rw [render_of_decideAll_error huntraced, render_of_decideAll_error hdecide]
    rfl
  | ok decision =>
    obtain ⟨text, selected, trace⟩ := decision
    obtain ⟨hselect, rfl⟩ := selectAll_of_decideAll hdecide
    rw [hselect] at huntraced
    rw [render_of_decideAll huntraced, render_of_decideAll hdecide]
    cases substitute (outputs t.conditions selected ++ t.tail) args <;> rfl

theorem accounts_of_render {r : Rendering} {t : Template} (htrace : options.trace = true)
    (h : t.render options args = .ok r) :
    Accounts options args 0 t.conditions r.selected r.trace := by
  obtain ⟨⟨text, selected, trace⟩, hdecide, h⟩ := bind_eq_ok_iff.1 h
  obtain ⟨output, -, h⟩ := bind_eq_ok_iff.1 h
  cases h
  exact accounts_of_decideAll htrace hdecide

/-- A trace changes nothing else. It has an account of each condition, which determines its length, and
its lines determine the selections. -/
theorem render_traced (strict : Bool) (args : List Value) (t : Template) :
    t.render ⟨strict, false⟩ args =
        (t.render ⟨strict, true⟩ args).map (fun r ↦ { r with trace := [] }) ∧
      ∀ r, t.render ⟨strict, true⟩ args = .ok r →
        Accounts ⟨strict, true⟩ args 0 t.conditions r.selected r.trace ∧
        r.trace.length = (List.zipWith (fun s selection ↦ selection.events s.condition)
          t.conditions r.selected).foldr (· + ·) 0 ∧
        ∀ strict' args' (t' : Template) r', t'.render ⟨strict', true⟩ args' = .ok r' →
          r'.trace.map Event.line = r.trace.map Event.line → r'.selected = r.selected := by
  refine ⟨render_untraced strict args t, fun r h ↦ ?_⟩
  have haccounts := accounts_of_render rfl h
  refine ⟨haccounts, haccounts.length_eq, ?_⟩
  intro strict' args' t' r' h' hlines
  have haccounts' := accounts_of_render rfl h'
  rw [← haccounts.filterMap_selection?, ← haccounts'.filterMap_selection?]
  exact Event.filterMap_eq_of_lines_eq hlines

omit [Hasher] in
theorem render_traced_messages :
    ∃ t, @compile Digest.hasher "'{0}=1:one|{0}=2:two|*:other' '{0}=1:item|*:items'" = .ok t ∧
      ∃ r, @render Digest.hasher ⟨true, true⟩ [.integer 2] t = .ok r ∧
        r.selected = [.branch 1, .fallback] ∧
        @render Digest.hasher ⟨true, false⟩ [.integer 2] t = .ok { r with trace := [] } ∧
        Accounts ⟨true, true⟩ [.integer 2] 0 t.conditions r.selected r.trace ∧
        (List.zipWith (fun s selection ↦ selection.events s.condition)
          t.conditions r.selected).foldr (· + ·) 0 = 6 ∧
        ∃ r', @render Digest.hasher ⟨false, true⟩ [.integer 2, .null] t = .ok r' ∧
          r'.trace.map Event.line = r.trace.map Event.line ∧ r'.selected = r.selected := by
  let _ := Digest.hasher
  have hrun : (compile "'{0}=1:one|{0}=2:two|*:other' '{0}=1:item|*:items'").toOption.any fun t ↦
      (t.render ⟨true, true⟩ [.integer 2]).toOption.any fun r ↦
        r.selected = [.branch 1, .fallback] ∧ r.trace.length = 6 ∧
          (t.render ⟨false, true⟩ [.integer 2, .null]).toOption.any fun r' ↦ r'.trace = r.trace := by
    decide +kernel
  obtain ⟨t, ht, hrendered⟩ := (Option.any_eq_true _ _).1 hrun
  obtain ⟨r, hr, hfacts⟩ := (Option.any_eq_true _ _).1 hrendered
  obtain ⟨hselected, hlength, hother⟩ := of_decide_eq_true hfacts
  obtain ⟨r', hr', hlines⟩ := (Option.any_eq_true _ _).1 hother
  have hr := toOption_eq_some_iff.1 hr
  have hr' := toOption_eq_some_iff.1 hr'
  have hlines := congrArg (List.map Event.line) (of_decide_eq_true hlines)
  obtain ⟨huntraced, htraced⟩ := render_traced true [.integer 2] t
  obtain ⟨haccounts, htotal, hreads⟩ := htraced r hr
  rw [hr] at huntraced
  rw [hlength] at htotal
  exact ⟨t, toOption_eq_some_iff.1 ht, r, hr, hselected, huntraced, haccounts, htotal.symm, r', hr',
    hlines, hreads false [.integer 2, .null] t r' hr' hlines⟩

end Template

end Phrasing
