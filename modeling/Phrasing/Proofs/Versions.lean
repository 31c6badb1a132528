import Phrasing.Proofs.PlainMap

/-!
Versions: a template has the number of the load that put it there. Loads are counted from the start
of a store on, and nothing else that is done with it counts.

The loads are recorded beside the store, and each command adds its own to the record.
-/

namespace Phrasing

open Outcome

/-- Texts that were loaded, each with its name, in order. -/
abbrev Loads := List (String × String)

namespace Loads

def names (loads : Loads) : List String := loads.map Prod.fst

/-- The load with that number, counted from one, is the last under its name. -/
structure IsLast (loads : Loads) (name source : String) (n : Nat) : Prop where
  pos : 0 < n
  getElem?_eq : loads[n - 1]? = some (name, source)
  lt_of_getElem? {k : Nat} {source' : String} : loads[k]? = some (name, source') → k < n

/-- Something was loaded under the second name after all that was loaded under the first. -/
def LoadedLater (loads : Loads) (name name' : String) : Prop :=
  ∃ before after, loads = before ++ after ∧ name ∉ names after ∧ name' ∈ names after

variable {loads later : Loads} {name name' source source' : String} {n n' : Nat}

theorem mem_names_iff : name ∈ names loads ↔
    ∃ (k : Nat) (source : String), loads[k]? = some (name, source) := by
  rw [names, List.mem_map]
  constructor
  · intro h
    obtain ⟨⟨name, source⟩, hmem, rfl⟩ := h
    obtain ⟨k, hk⟩ := List.mem_iff_getElem?.1 hmem
    exact ⟨k, source, hk⟩
  · intro h
    obtain ⟨k, source, hk⟩ := h
    exact ⟨_, List.mem_iff_getElem?.2 ⟨k, hk⟩, rfl⟩

theorem isLast_concat (loads : Loads) (name source : String) :
    IsLast (loads ++ [(name, source)]) name source (loads.length + 1) where
  pos := by omega
  getElem?_eq := by simp
  lt_of_getElem? h := by
    have hlt := (List.getElem?_eq_some_iff.1 h).1
    simpa using hlt

namespace IsLast

theorem le_length (h : IsLast loads name source n) : n ≤ loads.length := by
  have hlt := (List.getElem?_eq_some_iff.1 h.getElem?_eq).1
  omega

theorem getElem?_append (h : IsLast loads name source n) (later : Loads) :
    (loads ++ later)[n - 1]? = some (name, source) := by
  rw [List.getElem?_append_left (List.getElem?_eq_some_iff.1 h.getElem?_eq).1, h.getElem?_eq]

theorem append (h : IsLast loads name source n) (hlater : name ∉ names later) :
    IsLast (loads ++ later) name source n where
  pos := h.pos
  getElem?_eq := h.getElem?_append later
  lt_of_getElem? := by
    intro k source' hk
    rcases Nat.lt_or_ge k loads.length with hlt | hge
    · rw [List.getElem?_append_left hlt] at hk
      exact h.lt_of_getElem? hk
    · rw [List.getElem?_append_right hge] at hk
      exact absurd (mem_names_iff.2 ⟨_, _, hk⟩) hlater

/-- A number belongs to one load, whatever was loaded after it. -/
theorem eq_of_append (h : IsLast loads name source n)
    (h' : IsLast (loads ++ later) name' source' n) : name = name' ∧ source = source' := by
  have heq := (h.getElem?_append later).symm.trans h'.getElem?_eq
  exact Prod.mk.inj (Option.some.inj heq)

theorem unique (h : IsLast loads name source n) (h' : IsLast loads name source' n') : n = n' := by
  have hlt := h.lt_of_getElem? h'.getElem?_eq
  have hlt' := h'.lt_of_getElem? h.getElem?_eq
  omega

theorem length_lt (h : IsLast (loads ++ later) name source n) (hlater : name ∈ names later) :
    loads.length < n := by
  obtain ⟨k, source', hk⟩ := mem_names_iff.1 hlater
  have hget : (loads ++ later)[loads.length + k]? = some (name, source') := by
    rw [List.getElem?_append_right (by omega), Nat.add_sub_cancel_left, hk]
  have hlt := h.lt_of_getElem? hget
  omega

theorem lt_iff (h : IsLast loads name source n) (h' : IsLast loads name' source' n') :
    n < n' ↔ LoadedLater loads name name' := by
  constructor
  · intro hlt
    refine ⟨loads.take n, loads.drop n, (List.take_append_drop n loads).symm, ?_, ?_⟩
    · intro hmem
      obtain ⟨k, source, hk⟩ := mem_names_iff.1 hmem
      rw [List.getElem?_drop] at hk
      have hlt := h.lt_of_getElem? hk
      omega
    · have hget : (loads.drop n)[n' - 1 - n]? = some (name', source') := by
        rw [List.getElem?_drop, ← h'.getElem?_eq]
        congr 1
        omega
      exact mem_names_iff.2 ⟨_, _, hget⟩
  · intro hlater
    obtain ⟨before, after, rfl, hname, hname'⟩ := hlater
    have hlt := h'.length_lt hname'
    rcases Nat.lt_or_ge (n - 1) before.length with hlt' | hge
    · omega
    · have hget := h.getElem?_eq
      rw [List.getElem?_append_right hge] at hget
      exact absurd (mem_names_iff.2 ⟨_, _, hget⟩) hname

end IsLast

end Loads

/-- The compiler has counted the loads, and each template has the number of the last load under its
name, whose text it was made from. -/
structure Numbered (templates : Std.ExtTreeMap String Template) (compiler : Compiler)
    (loads : Loads) : Prop where
  count_eq : compiler.count = loads.length
  isLast {name : String} {t : Template} :
    templates[name]? = some t → loads.IsLast name t.source t.version

variable [Hasher]

/-- Those of the texts that compile. -/
def loadable (texts : List (String × String)) : Loads :=
  texts.filter fun (_, source) ↦ (compile source).isOk

theorem loadable_cons (text : String × String) (texts : List (String × String)) :
    loadable (text :: texts) = loadable [text] ++ loadable texts :=
  List.filter_append [text] texts

namespace Store

/-- The texts that a command loads. -/
def loads (s : Store) : Command → Loads
  | .load name source => loadable [(name, source)]
  | .update name source => if name ∈ s.templates then loadable [(name, source)] else []
  | .loadBatch texts => loadable texts
  | _ => []

variable {s s' : Store} {loads : Loads} {name source : String}

theorem load_ok (h : s.load name source = .ok s') : loadable [(name, source)] = [(name, source)] := by
  rw [load_eq] at h
  obtain ⟨t, hcompile, -⟩ := map_eq_ok_iff.1 h
  simp [loadable, hcompile, Except.isOk, Except.toBool]

theorem load_error {failure : Failure} (h : s.load name source = .error failure) :
    loadable [(name, source)] = [] := by
  rw [load_eq, map_eq_error_iff] at h
  simp [loadable, h, Except.isOk, Except.toBool]

theorem numbered_load (h : Numbered s.templates s.compiler loads)
    (hload : s.load name source = .ok s') :
    Numbered s'.templates s'.compiler (loads ++ loadable [(name, source)]) := by
  rw [load_ok hload]
  rw [load_eq] at hload
  obtain ⟨t, hcompile, rfl⟩ := map_eq_ok_iff.1 hload
  constructor
  · simp [h.count_eq]
  · intro k t' ht'
    simp only [Std.ExtTreeMap.getElem?_insert] at ht'
    split at ht'
    · next hk =>
      obtain rfl := Std.compare_eq_iff_eq.1 hk
      obtain rfl := Option.some.inj ht'
      dsimp only
      rw [h.count_eq, Source.source_of_compile hcompile]
      exact Loads.isLast_concat loads name source
    · next hk =>
      have hne : k ∉ Loads.names [(name, source)] := by
        intro hmem
        obtain rfl := List.mem_singleton.1 hmem
        exact hk Std.compare_self
      exact (h.isLast ht').append hne

theorem numbered_change_load (h : Numbered s.templates s.compiler loads) (name source : String) :
    Numbered (s.change (s.load name source)).2.templates (s.change (s.load name source)).2.compiler
      (loads ++ loadable [(name, source)]) := by
  cases hload : s.load name source with
  | ok s' => exact numbered_load h hload
  | error failure =>
    rw [load_error hload, List.append_nil]
    exact h

theorem numbered_loadBatch (h : Numbered s.templates s.compiler loads)
    (texts : List (String × String)) :
    Numbered (s.loadBatch texts).2.templates (s.loadBatch texts).2.compiler
      (loads ++ loadable texts) := by
  induction texts generalizing s loads with
  | nil =>
    rw [loadable, List.filter_nil, List.append_nil]
    exact h
  | cons text texts ih =>
    obtain ⟨name, source⟩ := text
    rw [loadable_cons, ← List.append_assoc, loadBatch]
    cases hload : s.load name source with
    | ok s' => exact ih (numbered_load h hload)
    | error failure =>
      rw [load_error hload, List.append_nil]
      exact ih h

omit [Hasher] in
theorem numbered_erase (h : Numbered s.templates s.compiler loads) (name : String) :
    Numbered (s.templates.erase name) s.compiler loads := by
  refine ⟨h.count_eq, fun {k t} ht ↦ ?_⟩
  rw [Std.ExtTreeMap.getElem?_erase] at ht
  split at ht
  · cases ht
  · exact h.isLast ht

/-- A rendering may stamp conditions, but it leaves the texts and the versions. -/
theorem numbered_rendered (h : Numbered s.templates s.compiler loads) (name : String)
    (args : List Value) :
    Numbered (s.rendered name args).templates (s.rendered name args).compiler loads := by
  refine ⟨h.count_eq, fun {k t} ht ↦ ?_⟩
  simp only [rendered, Std.ExtTreeMap.getElem?_modify] at ht
  split at ht
  · next hk =>
    obtain rfl := Std.compare_eq_iff_eq.1 hk
    obtain ⟨t, hget, rfl⟩ := Option.map_eq_some_iff.1 ht
    have hlast := h.isLast hget
    exact hlast
  · exact h.isLast ht

omit [Hasher] in
theorem find_of_mem (h : name ∈ s.templates) : ∃ t, s.find name = .ok t := by
  rw [Std.ExtTreeMap.mem_iff_isSome_getElem?, Option.isSome_iff_exists] at h
  obtain ⟨t, ht⟩ := h
  exact ⟨t, by rw [find, ht]⟩

omit [Hasher] in
theorem find_of_not_mem (h : name ∉ s.templates) : s.find name = .error (.unknownTemplate name) := by
  rw [find, Std.ExtTreeMap.getElem?_eq_none h]

theorem numbered_run (h : Numbered s.templates s.compiler loads) (command : Command) :
    Numbered (s.run command).2.templates (s.run command).2.compiler (loads ++ s.loads command) := by
  have hsame : Numbered s.templates s.compiler (loads ++ []) := by rwa [List.append_nil]
  cases command with
  | load name source => exact numbered_change_load h name source
  | update name source =>
    by_cases hname : name ∈ s.templates
    · obtain ⟨t, ht⟩ := find_of_mem hname
      have hupdate : s.update name source = s.load name source := by
        rw [update, ht]
        rfl
      rw [run, hupdate, Store.loads, if_pos hname]
      exact numbered_change_load h name source
    · have hupdate : s.update name source = .error (.unknownTemplate name) := by
        rw [update, find_of_not_mem hname]
        rfl
      rw [run, hupdate, Store.loads, if_neg hname]
      exact hsame
  | delete name =>
    by_cases hname : name ∈ s.templates
    · obtain ⟨t, ht⟩ := find_of_mem hname
      rw [run, delete, ht]
      exact numbered_erase hsame name
    · rw [run, delete, find_of_not_mem hname]
      exact hsame
  | clear =>
    refine ⟨hsame.count_eq, fun {k t} ht ↦ ?_⟩
    simp [run, clear] at ht
  | loadBatch texts => exact numbered_loadBatch h texts
  | render name args | renderTraced name args => exact numbered_rendered hsame name args
  | clone | get | contains | names | stats => exact hsame

/-- Whether a command can load texts. -/
def Command.isLoad : Command → Bool
  | .load .. | .update .. | .loadBatch _ => true
  | _ => false

omit [Hasher] in
theorem change_compiler {outcome : Except Failure Store} {failure : Failure}
    (h : (s.change outcome).1 = .error failure) : (s.change outcome).2.compiler = s.compiler := by
  rw [change_of_error h]

theorem run_compiler {command : Command}
    (h : command.isLoad = false ∨ ∃ failure, (s.run command).1 = .error failure) :
    (s.run command).2.compiler = s.compiler := by
  cases command with
  | load name source | update name source =>
    rcases h with h | ⟨failure, h⟩
    · cases h
    · exact change_compiler h
  | loadBatch texts => rcases h with h | ⟨failure, h⟩ <;> cases h
  | delete name =>
    rw [run, delete]
    cases s.find name <;> rfl
  | clear | clone | get | contains | names | stats | render | renderTraced => rfl

end Store

namespace Session

variable {ι : Type}

/-- The texts that a step loads. -/
def loads (w : Session ι) : Step ι → Loads
  | .command i command => (w.store i).loads command
  | .size _ | .isEmpty _ | .clone .. => []

def Step.isLoad : Step ι → Bool
  | .command _ c => c.isLoad
  | .size _ | .isEmpty _ | .clone .. => false

variable [DecidableEq ι]

/-- The texts that were loaded while the steps were taken. -/
def loadsAll (w : Session ι) : List (Step ι) → Loads
  | [] => []
  | step :: steps => w.loads step ++ loadsAll (w.run step).2 steps

variable {w : Session ι} {loads : Loads}

theorem numbered_run (h : Numbered w.templates w.compiler loads) (step : Step ι) :
    Numbered (w.run step).2.templates (w.run step).2.compiler (loads ++ w.loads step) := by
  cases step with
  | command i command => exact Store.numbered_run (s := w.store i) h command
  | size | isEmpty | clone =>
    rw [Session.loads, List.append_nil]
    exact h

theorem numbered_runAll (h : Numbered w.templates w.compiler loads) (steps : List (Step ι)) :
    Numbered (w.runAll steps).2.templates (w.runAll steps).2.compiler
      (loads ++ w.loadsAll steps) := by
  induction steps generalizing w loads with
  | nil =>
    rw [loadsAll, List.append_nil]
    exact h
  | cons step steps ih =>
    rw [loadsAll, ← List.append_assoc]
    exact ih (numbered_run h step)

theorem run_compiler {step : Step ι}
    (h : step.isLoad = false ∨ (w.run step).1.isFailure = true) :
    (w.run step).2.compiler = w.compiler := by
  cases step with
  | command i command =>
    have hstore : command.isLoad = false ∨
        ∃ failure, ((w.store i).run command).1 = .error failure := by
      refine h.imp_right fun hfail ↦ ?_
      cases hreply : ((w.store i).run command).1 with
      | error failure => exact ⟨failure, rfl⟩
      | ok reply => simp [Session.run, hreply, Answer.isFailure] at hfail
    exact Store.run_compiler hstore
  | size | isEmpty | clone => rfl

/-- After any steps, the version of a template is the number of the last load under its name, counted
over all loads since the start. So a version tells one load, now and later, and the order of versions
is the order of these loads. A template has its version until something is loaded again under its
name, which gives a greater one. Steps that fail and steps that load nothing do not count. -/
theorem runAll_versions (options : Options) (steps later : List (Step ι)) :
    let start : Session ι := new options
    let w := (start.runAll steps).2
    let loads := start.loadsAll steps
    let w' := (w.runAll later).2
    (w.compiler.count = loads.length ∧ ∀ name t, w.templates[name]? = some t →
      loads.IsLast name t.source t.version) ∧
    (∀ name name' t t', w.templates[name]? = some t → w.templates[name']? = some t' →
      (t.version = t'.version → name = name') ∧
      (t.version < t'.version ↔ loads.LoadedLater name name')) ∧
    (∀ name name' t t', w.templates[name]? = some t → w'.templates[name']? = some t' →
      (t.version = t'.version → name = name' ∧ t.source = t'.source) ∧
      (name' ∈ (w.loadsAll later).names → t.version < t'.version)) ∧
    (∀ name t t', w.templates[name]? = some t → w'.templates[name]? = some t' →
      name ∉ (w.loadsAll later).names → t.version = t'.version) ∧
    ∀ step : Step ι, step.isLoad = false ∨ (w.run step).1.isFailure = true →
      (w.run step).2.compiler = w.compiler := by
  intro start w loads w'
  have hstart : Numbered start.templates start.compiler [] :=
    ⟨rfl, fun {name t} ht ↦ by simp [start, new] at ht⟩
  have hw : Numbered w.templates w.compiler loads := numbered_runAll hstart steps
  have hw' : Numbered w'.templates w'.compiler (loads ++ w.loadsAll later) :=
    numbered_runAll hw later
  refine ⟨⟨hw.count_eq, fun name t ↦ hw.isLast⟩, ?_, ?_, ?_, fun step ↦ run_compiler⟩
  · intro name name' t t' ht ht'
    have h := hw.isLast ht
    have h' := hw.isLast ht'
    refine ⟨fun heq ↦ ?_, h.lt_iff h'⟩
    rw [← heq, ← List.append_nil loads] at h'
    exact (h.eq_of_append h').1
  · intro name name' t t' ht ht'
    have h := hw.isLast ht
    have h' := hw'.isLast ht'
    refine ⟨fun heq ↦ ?_, fun hmem ↦ Nat.lt_of_le_of_lt h.le_length (h'.length_lt hmem)⟩
    rw [← heq] at h'
    exact h.eq_of_append h'
  · intro name t t' ht ht' hno
    exact ((hw.isLast ht).append hno).unique (hw'.isLast ht')

omit [Hasher] [DecidableEq ι] in
/-- A name that was deleted is loaded again with the next version: the loads that failed in between
were not counted. -/
theorem runAll_versions_reload :
    let _ := Digest.hasher
    let steps : List (Step Unit) := [.command () (.load "size" "{0}"),
      .command () (.load "unit" "'"), .command () (.load "unit" "{1}")]
    let later : List (Step Unit) := [.command () (.delete "size"),
      .command () (.update "size" "{1}"), .command () (.loadBatch [("size", "'"), ("size", "{2}")])]
    let w := ((new .standard : Session Unit).runAll steps).2
    ∃ t t', w.templates["size"]? = some t ∧ (w.runAll later).2.templates["size"]? = some t' ∧
      "size" ∈ (w.loadsAll later).names ∧ t.version < t'.version := by
  intro _ steps later w
  have hget : w.templates["size"]?.isSome := by decide +kernel
  have hget' : (w.runAll later).2.templates["size"]?.isSome := by decide +kernel
  have hmem : "size" ∈ (w.loadsAll later).names := by decide +kernel
  obtain ⟨t, ht⟩ := Option.isSome_iff_exists.1 hget
  obtain ⟨t', ht'⟩ := Option.isSome_iff_exists.1 hget'
  obtain ⟨-, -, hlater, -⟩ := runAll_versions .standard steps later
  exact ⟨t, t', ht, ht', hmem, (hlater _ _ t t' ht ht').2 hmem⟩

end Session

end Phrasing
