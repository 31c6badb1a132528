import Phrasing.Proofs.Rendering

/-!
Two runs of a template, with other options or other arguments. Where the comparisons of the two runs
agree, the choices and the renderings agree as well; the first run may have failures that are excused,
and what the second run comes to is then left open.
-/

namespace Phrasing

variable {P : Failure → Prop} {α β : Type}

/-- Two outcomes are the same, unless the first is a failure that is excused. -/
inductive SameUnless (P : Failure → Prop) : Except Failure α → Except Failure α → Prop
  | same (x : Except Failure α) : SameUnless P x x
  | excused {failure : Failure} (h : P failure) (y : Except Failure α) :
      SameUnless P (.error failure) y

namespace SameUnless

section

variable {x y : Except Failure α}

theorem ok_of_ok {a : α} (h : SameUnless P x y) (hx : x = .ok a) : y = .ok a := by
  cases h with
  | same => exact hx
  | excused => cases hx

theorem error_of_error {failure : Failure} (h : SameUnless P x y) (hx : x = .error failure)
    (hfailure : ¬P failure) : y = .error failure := by
  cases h with
  | same => exact hx
  | excused h =>
    cases hx
    exact absurd h hfailure

theorem eq (h : SameUnless (fun _ ↦ False) x y) : x = y := by
  cases h with
  | same => rfl
  | excused h => cases h

theorem map (h : SameUnless P x y) (f : α → β) : SameUnless P (x.map f) (y.map f) := by
  cases h with
  | same => exact .same _
  | excused h => exact .excused h _

theorem bind {f g : α → Except Failure β} (h : SameUnless P x y)
    (hf : ∀ a, SameUnless P (f a) (g a)) : SameUnless P (x >>= f) (y >>= g) := by
  cases h with
  | same =>
    cases x with
    | error failure => exact .same _
    | ok a => exact hf a
  | excused h => exact .excused h _

theorem mapM {f g : α → Except Failure β} {as : List α}
    (h : ∀ a ∈ as, SameUnless P (f a) (g a)) : SameUnless P (as.mapM f) (as.mapM g) := by
  induction as with
  | nil => exact .same _
  | cons a as ih =>
    obtain ⟨ha, has⟩ := List.forall_mem_cons.1 h
    rw [List.mapM_cons, List.mapM_cons]
    exact ha.bind fun b ↦ (ih has).bind fun bs ↦ .same _

end

variable {options options' : Options} {args args' : List Value}

theorem substitute {text : String}
    (h : ∀ i ∈ placeholders text, SameUnless P (resolve args i) (resolve args' i)) :
    SameUnless P (substitute text args) (substitute text args') := by
  refine bind (mapM ?_) fun filled ↦ .same _
  intro piece hpiece
  cases piece with
  | literal c => exact .same _
  | slot digits => exact (h _ (List.mem_filterMap.2 ⟨_, hpiece, rfl⟩)).map _

/-- What a comparison tells depends on the arguments that it names. -/
theorem evaluate {c : Comparison}
    (h : ∀ i ∈ c.target :: c.operand.pointer?.toList,
      SameUnless P (resolve args i) (resolve args' i)) :
    SameUnless P (c.evaluate options args) (c.evaluate options args') := by
  refine map (bind (h _ List.mem_cons_self) fun value ↦ ?_) _
  have hoperand : SameUnless P (Comparand.ofOperand args c.operand)
      (Comparand.ofOperand args' c.operand) := by
    cases hx : c.operand with
    | pointer index => exact (h index (by simp [hx, Operand.pointer?])).map _
    | integer | float | text | range => exact .same _
  dsimp only
  split
  · exact .same _
  · exact .same _
  · exact hoperand.bind fun operand ↦ .same _

theorem chooseTraced {branches : List Branch} {index : Nat}
    (h : ∀ b ∈ branches, SameUnless P (b.evaluate options args) (b.evaluate options' args')) :
    SameUnless P (Branch.chooseTraced options args index branches)
      (Branch.chooseTraced options' args' index branches) := by
  induction branches generalizing index with
  | nil => exact .same _
  | cons b branches ih =>
    obtain ⟨hb, hbranches⟩ := List.forall_mem_cons.1 h
    refine hb.bind fun holds ↦ ?_
    cases holds with
    | true => exact .same _
    | false => exact (ih hbranches).bind fun choice ↦ .same _

variable [Hasher] {s : Stamped} {conditions : List Stamped} {t : Template}

theorem selectTraced
    (h : ∀ b ∈ s.condition.branches,
      SameUnless P (b.evaluate options args) (b.evaluate options' args')) :
    SameUnless P (s.selectTraced options args) (s.selectTraced options' args') := by
  rw [Stamped.selectTraced, Stamped.selectTraced]
  cases hvalid : s.validate with
  | error => exact .same _
  | ok t =>
    rw [← Stamped.validate_condition hvalid] at h
    exact chooseTraced h

theorem select
    (h : ∀ b ∈ s.condition.branches,
      SameUnless P (b.evaluate options args) (b.evaluate options' args')) :
    SameUnless P (s.select options args) (s.select options' args') := by
  rw [← Stamped.selectTraced_fst, ← Stamped.selectTraced_fst]
  exact (selectTraced h).map _

theorem selectAll
    (h : ∀ s ∈ conditions, ∀ b ∈ s.condition.branches,
      SameUnless P (b.evaluate options args) (b.evaluate options' args')) :
    SameUnless P (Source.selectAll options args conditions)
      (Source.selectAll options' args' conditions) :=
  mapM fun s hs ↦ select (h s hs)

theorem decideAll {index : Nat} (htrace : options.trace = options'.trace)
    (h : ∀ s ∈ conditions, ∀ b ∈ s.condition.branches,
      SameUnless P (b.evaluate options args) (b.evaluate options' args')) :
    SameUnless P (Template.decideAll options args index conditions)
      (Template.decideAll options' args' index conditions) := by
  induction conditions generalizing index with
  | nil => exact .same _
  | cons s conditions ih =>
    obtain ⟨hs, hconditions⟩ := List.forall_mem_cons.1 h
    have hdecide : SameUnless P (Template.decideCondition options args index s)
        (Template.decideCondition options' args' index s) := by
      unfold Template.decideCondition
      rw [← htrace]
      split
      · exact (selectTraced hs).map _
      · exact (select hs).map _
    exact hdecide.bind fun decision ↦ (ih hconditions).bind fun later ↦ .same _

theorem render (htrace : options.trace = options'.trace)
    (h : ∀ s ∈ t.conditions, ∀ b ∈ s.condition.branches,
      SameUnless P (b.evaluate options args) (b.evaluate options' args'))
    (htext : ∀ text, SameUnless P (Phrasing.substitute text args)
      (Phrasing.substitute text args')) :
    SameUnless P (t.render options args) (t.render options' args') :=
  (decideAll htrace h).bind fun _ ↦ (htext _).bind fun _ ↦ .same _

end SameUnless

end Phrasing
