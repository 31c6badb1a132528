import Phrasing.Proofs.Agreement

/-!
What a rendering takes from the arguments. More arguments do no harm, and what is chosen depends on
those alone that the conditions compare.
-/

namespace Phrasing

open Outcome Source

/-- An argument was looked up beyond the last one. -/
inductive Failure.IsMissing : Failure → Prop
  | intro (index count : Nat) : IsMissing (.missingArgument index count)

theorem resolve_append (args extra : List Value) (i : Nat) :
    SameUnless Failure.IsMissing (resolve args i) (resolve (args ++ extra) i) := by
  unfold resolve
  cases h : args[i]? with
  | none => exact .excused (.intro _ _) _
  | some value =>
    rw [List.getElem?_append_left (List.getElem?_eq_some_iff.1 h).1, h]
    exact .same _

/-- Two argument lists of one length that hold the same where the conditions look: at the targets of
their branches and at the indices that stand as operands. -/
structure AgreeOn (conditions : List Stamped) (args args' : List Value) : Prop where
  length_eq : args.length = args'.length
  getElem?_eq : ∀ s ∈ conditions, ∀ b ∈ s.condition.branches, ∀ i ∈ b.compared, args[i]? = args'[i]?

namespace AgreeOn

variable {options : Options} {args args' : List Value} {conditions : List Stamped} {s : Stamped}

theorem evaluate (h : AgreeOn conditions args args') (hs : s ∈ conditions) :
    ∀ b ∈ s.condition.branches,
      SameUnless (fun _ ↦ False) (b.evaluate options args) (b.evaluate options args') := by
  intro b hb
  refine .evaluate fun i hi ↦ ?_
  rw [resolve, resolve, h.length_eq, h.getElem?_eq s hs b hb i hi]
  exact .same _

variable [Hasher]

theorem select_eq (h : AgreeOn conditions args args') (hs : s ∈ conditions) :
    s.select options args = s.select options args' :=
  (SameUnless.select (h.evaluate hs)).eq

theorem decideAll_eq (h : AgreeOn conditions args args') (options : Options) (index : Nat) :
    Template.decideAll options args index conditions =
      Template.decideAll options args' index conditions :=
  (SameUnless.decideAll rfl fun _ hs ↦ h.evaluate hs).eq

end AgreeOn

namespace Template

variable [Hasher] {options : Options} {args args' : List Value} {t : Template}

/-- More arguments change nothing, unless one was missing. -/
theorem render_append (t : Template) (options : Options) (args extra : List Value) :
    (∀ r, t.render options args = .ok r → t.render options (args ++ extra) = .ok r) ∧
      ∀ failure, t.render options args = .error failure → ¬failure.IsMissing →
        t.render options (args ++ extra) = .error failure := by
  have hsame : SameUnless Failure.IsMissing (t.render options args)
      (t.render options (args ++ extra)) := by
    refine .render rfl (fun s hs b hb ↦ .evaluate fun i hi ↦ resolve_append args extra i) ?_
    exact fun text ↦ .substitute fun i hi ↦ resolve_append args extra i
  exact ⟨fun r ↦ hsame.ok_of_ok, fun failure ↦ hsame.error_of_error⟩

omit [Hasher] in
theorem render_append_null :
    ∃ t, @compile Digest.hasher "'{0}>1:many|*:one' {0}" = .ok t ∧
      (∃ r, @render Digest.hasher ⟨true, true⟩ [.integer 3] t = .ok r ∧
        @render Digest.hasher ⟨true, true⟩ ([.integer 3] ++ [.null, .text "\x7b0\x7d"]) t = .ok r) ∧
      ∃ failure, @render Digest.hasher ⟨true, true⟩ [.null] t = .error failure ∧
        ¬failure.IsMissing ∧
        @render Digest.hasher ⟨true, true⟩ ([.null] ++ [.integer 3]) t = .error failure := by
  let _ := Digest.hasher
  have hrun : (compile "'{0}>1:many|*:one' {0}").toOption.any fun t ↦
      (t.render ⟨true, true⟩ [.integer 3]).toOption.isSome ∧
        error? (t.render ⟨true, true⟩ [.null]) = some (.nullArgument 0) := by
    decide +kernel
  obtain ⟨t, ht, hfacts⟩ := (Option.any_eq_true _ _).1 hrun
  obtain ⟨hsome, hnull⟩ := of_decide_eq_true hfacts
  obtain ⟨r, hr⟩ := Option.isSome_iff_exists.1 hsome
  have hr := toOption_eq_some_iff.1 hr
  have hnull := error?_eq_some_iff.1 hnull
  have hpresent : ¬(Failure.nullArgument 0).IsMissing := nofun
  refine ⟨t, toOption_eq_some_iff.1 ht, ⟨r, hr, ?_⟩, _, hnull, hpresent, ?_⟩
  · exact (render_append t ⟨true, true⟩ [.integer 3] [.null, .text "\x7b0\x7d"]).1 r hr
  · exact (render_append t ⟨true, true⟩ [.null] [.integer 3]).2 _ hnull hpresent

/-- Arguments that no condition compares have no part in what is chosen: it comes to the same, with
the same trace, or fails in the same way. They have a part in the text only when they are put into it. -/
theorem render_of_agree (t : Template) (options : Options) (h : AgreeOn t.conditions args args') :
    (∀ s ∈ t.conditions, s.select options args = s.select options args') ∧
      ((∃ failure, selectAll options args t.conditions = .error failure ∧
          selectAll options args' t.conditions = .error failure ∧
          t.render options args = .error failure ∧ t.render options args' = .error failure) ∨
        ∃ selected trace, selectAll options args t.conditions = .ok selected ∧
          selectAll options args' t.conditions = .ok selected ∧
          t.render options args =
            (substitute (outputs t.conditions selected ++ t.tail) args).map
              (⟨·, selected, trace⟩) ∧
          t.render options args' =
            (substitute (outputs t.conditions selected ++ t.tail) args').map
              (⟨·, selected, trace⟩)) := by
  refine ⟨fun s hs ↦ h.select_eq hs, ?_⟩
  have hsame := h.decideAll_eq options 0
  cases hdecide : decideAll options args 0 t.conditions with
  | error failure =>
    rw [hdecide] at hsame
    exact .inl ⟨failure, selectAll_of_decideAll_error hdecide,
      selectAll_of_decideAll_error hsame.symm, render_of_decideAll_error hdecide,
      render_of_decideAll_error hsame.symm⟩
  | ok decision =>
    obtain ⟨text, selected, trace⟩ := decision
    rw [hdecide] at hsame
    obtain ⟨hselect, rfl⟩ := selectAll_of_decideAll hdecide
    exact .inr ⟨selected, trace, hselect, (selectAll_of_decideAll hsame.symm).1,
      render_of_decideAll hdecide, render_of_decideAll hsame.symm⟩

omit [Hasher] in
theorem render_of_agree_text :
    ∃ t, @compile Digest.hasher "'{0}>{1}:more {2}|*:less'" = .ok t ∧
      AgreeOn t.conditions [.integer 5, .integer 3, .text "\x7b0\x7d"]
        [.integer 5, .integer 3, .null] ∧
      ∃ selected trace,
        @selectAll Digest.hasher ⟨true, true⟩ [.integer 5, .integer 3, .null] t.conditions =
            .ok selected ∧
          @render Digest.hasher ⟨true, true⟩ [.integer 5, .integer 3, .text "\x7b0\x7d"] t =
            .ok ⟨"more \x7b0\x7d", selected, trace⟩ ∧
          @render Digest.hasher ⟨true, true⟩ [.integer 5, .integer 3, .null] t =
            .error (.nullArgument 2) := by
  let _ := Digest.hasher
  have hrun : (compile "'{0}>{1}:more {2}|*:less'").toOption.any fun t ↦
      (∀ s ∈ t.conditions, ∀ b ∈ s.condition.branches, ∀ i ∈ b.compared, i < 2) ∧
        (t.render ⟨true, true⟩ [.integer 5, .integer 3, .text "\x7b0\x7d"]).toOption.map
          Rendering.output = some "more \x7b0\x7d" ∧
        error? (t.render ⟨true, true⟩ [.integer 5, .integer 3, .null]) =
          some (.nullArgument 2) := by
    decide +kernel
  obtain ⟨t, ht, hfacts⟩ := (Option.any_eq_true _ _).1 hrun
  obtain ⟨hcompared, htext, hnull⟩ := of_decide_eq_true hfacts
  obtain ⟨r, hr, houtput⟩ := Option.map_eq_some_iff.1 htext
  have hr := toOption_eq_some_iff.1 hr
  have hagree : AgreeOn t.conditions [.integer 5, .integer 3, .text "\x7b0\x7d"]
      [.integer 5, .integer 3, .null] := by
    refine ⟨rfl, fun s hs b hb i hi ↦ ?_⟩
    match i, hcompared s hs b hb i hi with
    | 0, _ => rfl
    | 1, _ => rfl
  rcases (render_of_agree t ⟨true, true⟩ hagree).2 with
    ⟨failure, -, -, hfailed, -⟩ | ⟨selected, trace, -, hselect, hrender, -⟩
  · cases hr.symm.trans hfailed
  · refine ⟨t, toOption_eq_some_iff.1 ht, hagree, selected, trace, hselect, ?_,
      error?_eq_some_iff.1 hnull⟩
    obtain ⟨output, -, rfl⟩ := map_eq_ok_iff.1 (hrender.symm.trans hr)
    rw [hr, ← houtput]

end Template

end Phrasing
