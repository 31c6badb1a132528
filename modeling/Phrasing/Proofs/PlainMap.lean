import Mathlib.Data.List.Basic
import Phrasing.Condition.Digest
import Phrasing.Proofs.Check
import Phrasing.Proofs.Source
import Phrasing.Session

/-!
A store is a map from names to texts. Whatever was done with it before, it answers as if it held
the texts loaded last and nothing else, and compiled them anew each time; only the versions of its
templates tell how often it has compiled.
-/

namespace Phrasing

open Grammar Outcome Store

def Template.unversioned (t : Template) : Template := { t with version := 1 }

def Store.Reply.unversioned : Reply → Reply
  | .template found => .template (found.map Template.unversioned)
  | reply => reply

def Session.Answer.unversioned : Session.Answer → Session.Answer
  | .reply r => .reply (r.map Store.Reply.unversioned)
  | answer => answer

/-- The texts loaded last, by name. -/
abbrev Sources := Std.ExtTreeMap String String

namespace Sources

variable {ι : Type} [Hasher]

def load (m : Sources) (name source : String) : Except Failure Sources :=
  (compile source).map fun _ ↦ m.insert name source

def update (m : Sources) (name source : String) : Except Failure Sources :=
  if name ∈ m then m.load name source else .error (.unknownTemplate name)

def delete (m : Sources) (name : String) : Except Failure Sources :=
  if name ∈ m then .ok (m.erase name) else .error (.unknownTemplate name)

/-- The names of the texts that compile, and the map with these texts, of which the later ones
replace the earlier ones. -/
def loadBatch (m : Sources) (texts : List (String × String)) : List String × Sources :=
  let loaded := texts.filter fun (_, source) ↦ (compile source).isOk
  (loaded.map Prod.fst, loaded.foldl (fun m (name, source) ↦ m.insert name source) m)

/-- The texts of a batch are loaded one by one, and one that fails is left out. -/
theorem loadBatch_cons (m : Sources) (name source : String) (texts : List (String × String)) :
    m.loadBatch ((name, source) :: texts) =
      match m.load name source with
      | .ok m' => (name :: (m'.loadBatch texts).1, (m'.loadBatch texts).2)
      | .error _ => m.loadBatch texts := by
  unfold loadBatch load
  cases hcompile : compile source with
  | error => simp [hcompile, Except.isOk, Except.toBool, Except.map]
  | ok => simp [hcompile, Except.isOk, Except.toBool, Except.map]

def render (m : Sources) (options : Options) (name : String) (args : List Value) :
    Except Failure Rendering :=
  match m[name]? with
  | some source => do (← compile source).render options args
  | none => .error (.unknownTemplate name)

def countConditions (source : String) : Nat :=
  match compile source with
  | .ok t => t.conditions.length
  | .error _ => 0

def stats (m : Sources) : Stats :=
  ⟨m.size, m.foldr (fun _ source n ↦ countConditions source + n) 0⟩

def change (m : Sources) : Except Failure Sources → Except Failure Reply × Sources
  | .ok m' => (.ok .done, m')
  | .error failure => (.error failure, m)

def run (options : Options) (m : Sources) : Command → Except Failure Reply × Sources
  | .load name source => m.change (m.load name source)
  | .update name source => m.change (m.update name source)
  | .delete name => m.change (m.delete name)
  | .clear => (.ok .done, ∅)
  | .clone => (.ok .done, m)
  | .loadBatch texts => (.ok (.loaded (m.loadBatch texts).1), (m.loadBatch texts).2)
  | .get name => (.ok (.template (m[name]?.bind fun source ↦ (compile source).toOption)), m)
  | .contains name => (.ok (.present (m.contains name)), m)
  | .names => (.ok (.names m.keys), m)
  | .stats => (.ok (.stats m.stats), m)
  | .render name args => ((m.render options name args).map fun r ↦ .output r.output, m)
  | .renderTraced name args => ((m.render options name args).map .rendering, m)

/-- A step of a session, whichever handle it goes through. -/
def step (options : Options) (m : Sources) : Session.Step ι → Session.Answer × Sources
  | .command _ command => (.reply (m.run options command).1, (m.run options command).2)
  | .size _ => (.size m.size, m)
  | .isEmpty _ => (.isEmpty m.isEmpty, m)
  | .clone _ _ => (.cloned, m)

def runAll (options : Options) (m : Sources) :
    List (Session.Step ι) → List Session.Answer × Sources
  | [] => ([], m)
  | step :: steps =>
    let (answer, m') := m.step options step
    let (answers, final) := m'.runAll options steps
    (answer :: answers, final)

end Sources

variable [Hasher]

namespace Source

theorem source_of_compile {source : String} {t : Template} (h : compile source = .ok t) :
    t.source = source := by
  rw [(compile_iff.1 h).2]

theorem unversioned_of_compile {source : String} {t : Template} (h : compile source = .ok t) :
    t.unversioned = t := by
  rw [(compile_iff.1 h).2]
  rfl

/-- The conditions of a source are not checked again. -/
theorem validate_of_compile {source : String} {t : Template} (h : compile source = .ok t) :
    ∀ s ∈ t.conditions, s.validate = .ok s := by
  intro s hs
  obtain ⟨hstamped, hcheck⟩ := (compile_iff.1 h).1.sound s hs
  rw [hstamped]
  exact validate_stamped hcheck

end Source

theorem Compiler.compile_eq (compiler : Compiler) (source : String) : compiler.compile source =
    (Phrasing.compile source).map fun t ↦
      ({ t with version := compiler.count + 1 }, ⟨compiler.count + 1⟩) := by
  simp only [Phrasing.compile, Compiler.compile, Compiler.new]
  cases Template.readSource source <;> rfl

namespace Template

theorem checkAll_of_validate {conditions : List Stamped}
    (h : ∀ s ∈ conditions, s.validate = .ok s) (options : Options) (args : List Value) :
    checkAll options args conditions = conditions := by
  induction conditions with
  | nil => rfl
  | cons s conditions ih =>
    obtain ⟨hs, hconditions⟩ := List.forall_mem_cons.1 h
    have hchecked : s.checked = s := by simp [Stamped.checked, hs]
    rw [checkAll, hchecked]
    split
    · rw [ih hconditions]
    · rfl

end Template

namespace Store

variable {s s' : Store} {name source : String}

/-- The text of each template. -/
def sources (s : Store) : Sources := s.templates.map fun _ t ↦ t.source

/-- Every template is what its text compiles to, apart from the version. -/
def IsFresh (s : Store) : Prop :=
  ∀ (name : String) (t : Template),
    s.templates[name]? = some t → compile t.source = .ok t.unversioned

omit [Hasher] in
theorem getElem?_sources (s : Store) (name : String) :
    s.sources[name]? = s.templates[name]?.map Template.source :=
  Std.ExtTreeMap.getElem?_map

omit [Hasher] in
theorem mem_sources_iff : name ∈ s.sources ↔ ∃ t, s.templates[name]? = some t := by
  rw [Std.ExtTreeMap.mem_iff_isSome_getElem?, getElem?_sources, Option.isSome_map,
    Option.isSome_iff_exists]

theorem load_eq (s : Store) (name source : String) : s.load name source =
    (compile source).map fun t ↦
      { s with
        templates := s.templates.insert name { t with version := s.compiler.count + 1 }
        compiler := ⟨s.compiler.count + 1⟩ } := by
  rw [load, Compiler.compile_eq]
  cases compile source <;> rfl

theorem load_sources (s : Store) (name source : String) :
    (s.load name source).map sources = s.sources.load name source := by
  rw [load_eq, Sources.load]
  cases hcompile : compile source with
  | error => rfl
  | ok t =>
    refine congrArg Except.ok (Std.ExtTreeMap.ext_getElem? fun k ↦ ?_)
    simp only [getElem?_sources, Std.ExtTreeMap.getElem?_insert]
    split
    · simp [Source.source_of_compile hcompile]
    · rfl

omit [Hasher] in
theorem find_bind_sources {change : Template → Except Failure Store}
    {outcome : Except Failure Sources} (h : ∀ t, (change t).map sources = outcome) :
    (s.find name >>= change).map sources =
      if name ∈ s.sources then outcome else .error (.unknownTemplate name) := by
  unfold find
  cases hname : s.templates[name]? with
  | none =>
    rw [if_neg (by simp [mem_sources_iff, hname])]
    rfl
  | some t =>
    rw [if_pos (by simp [mem_sources_iff, hname])]
    exact h t

theorem update_sources (s : Store) (name source : String) :
    (s.update name source).map sources = s.sources.update name source :=
  find_bind_sources fun _ ↦ s.load_sources name source

omit [Hasher] in
theorem erase_sources (s : Store) (name : String) :
    sources { s with templates := s.templates.erase name } = s.sources.erase name := by
  refine Std.ExtTreeMap.ext_getElem? fun k ↦ ?_
  simp only [getElem?_sources, Std.ExtTreeMap.getElem?_erase]
  split <;> rfl

omit [Hasher] in
theorem delete_sources (s : Store) (name : String) :
    (s.delete name).map sources = s.sources.delete name := by
  have hdelete : s.delete name =
      s.find name >>= fun _ ↦ .ok { s with templates := s.templates.erase name } := by
    rw [delete]
    cases s.find name <;> rfl
  rw [hdelete]
  exact find_bind_sources fun _ ↦ congrArg Except.ok (s.erase_sources name)

omit [Hasher] in
theorem change_sources (s : Store) (outcome : Except Failure Store) :
    Prod.map (Except.map Reply.unversioned) sources (s.change outcome) =
      s.sources.change (outcome.map sources) := by
  cases outcome <;> rfl

theorem loadBatch_sources (s : Store) (texts : List (String × String)) :
    Prod.map id sources (s.loadBatch texts) = s.sources.loadBatch texts := by
  induction texts generalizing s with
  | nil => rfl
  | cons text texts ih =>
    obtain ⟨name, source⟩ := text
    rw [Sources.loadBatch_cons, ← s.load_sources, loadBatch]
    cases s.load name source with
    | error => exact ih s
    | ok s' =>
      dsimp only [Except.map]
      rw [← ih s']
      rfl

theorem IsFresh.load (h : s.IsFresh) (hload : s.load name source = .ok s') : s'.IsFresh := by
  rw [load_eq] at hload
  obtain ⟨t, hcompile, rfl⟩ := map_eq_ok_iff.1 hload
  intro k t' ht'
  simp only [Std.ExtTreeMap.getElem?_insert] at ht'
  split at ht'
  · obtain rfl := Option.some.inj ht'
    rw [← Source.source_of_compile hcompile] at hcompile
    exact hcompile.trans (congrArg Except.ok (Source.unversioned_of_compile hcompile).symm)
  · exact h k t' ht'

theorem IsFresh.update (h : s.IsFresh) (hupdate : s.update name source = .ok s') :
    s'.IsFresh := by
  obtain ⟨t, -, hload⟩ := bind_eq_ok_iff.1 hupdate
  exact h.load hload

theorem IsFresh.delete (h : s.IsFresh) (hdelete : s.delete name = .ok s') : s'.IsFresh := by
  obtain ⟨t, -, rfl⟩ := map_eq_ok_iff.1 hdelete
  intro k t' ht'
  simp only [Std.ExtTreeMap.getElem?_erase] at ht'
  split at ht'
  · cases ht'
  · exact h k t' ht'

theorem IsFresh.loadBatch (h : s.IsFresh) (texts : List (String × String)) :
    (s.loadBatch texts).2.IsFresh := by
  induction texts generalizing s with
  | nil => exact h
  | cons text texts ih =>
    obtain ⟨name, source⟩ := text
    rw [Store.loadBatch]
    cases hload : s.load name source with
    | error => exact ih h
    | ok s' => exact ih (h.load hload)

theorem IsFresh.change (h : s.IsFresh) {outcome : Except Failure Store}
    (houtcome : ∀ s', outcome = .ok s' → s'.IsFresh) : (s.change outcome).2.IsFresh := by
  cases outcome with
  | error => exact h
  | ok s' => exact houtcome s' rfl

theorem IsFresh.find_sources (h : s.IsFresh) (name : String) :
    (s.find name).map Template.unversioned =
      match s.sources[name]? with
      | some source => compile source
      | none => .error (.unknownTemplate name) := by
  rw [getElem?_sources, find]
  cases hname : s.templates[name]? with
  | none => rfl
  | some t => exact (h name t hname).symm

theorem IsFresh.render_sources (h : s.IsFresh) (name : String) (args : List Value) :
    s.render name args = s.sources.render s.options name args := by
  have hfind := h.find_sources name
  unfold Store.render Sources.render
  cases hname : s.sources[name]? with
  | none =>
    rw [hname] at hfind
    rw [map_eq_error_iff.1 hfind]
    rfl
  | some source =>
    rw [hname] at hfind
    dsimp only at hfind ⊢
    rw [← hfind]
    cases s.find name <;> rfl

theorem IsFresh.get_sources (h : s.IsFresh) (name : String) :
    s.templates[name]?.map Template.unversioned =
      s.sources[name]?.bind fun source ↦ (compile source).toOption := by
  rw [getElem?_sources]
  cases hname : s.templates[name]? with
  | none => rfl
  | some t => simp [h name t hname, Except.toOption]

theorem IsFresh.stats_sources (h : s.IsFresh) : s.stats = s.sources.stats := by
  have hconditions : s.templates.foldr (fun _ t n ↦ t.conditions.length + n) 0 =
      s.sources.foldr (fun _ source n ↦ Sources.countConditions source + n) 0 := by
    rw [Std.ExtTreeMap.foldr_eq_foldr_toList, Std.ExtTreeMap.foldr_eq_foldr_toList, sources,
      Std.ExtTreeMap.toList_map, List.foldr_map]
    refine List.foldr_ext _ _ _ fun entry hentry n ↦ ?_
    have hget := Std.ExtTreeMap.mem_toList_iff_getElem?_eq_some.1 hentry
    rw [Sources.countConditions, h _ _ hget]
    rfl
  rw [Store.stats, Sources.stats, hconditions, sources, Std.ExtTreeMap.size_map]

/-- A rendering leaves no new stamp. -/
theorem IsFresh.rendered_eq (h : s.IsFresh) (name : String) (args : List Value) :
    s.rendered name args = s := by
  have htemplates : s.templates.modify name (Template.rendered s.options args) = s.templates := by
    refine Std.ExtTreeMap.ext_getElem? fun k ↦ ?_
    rw [Std.ExtTreeMap.getElem?_modify]
    split
    · next hk =>
      obtain rfl := Std.compare_eq_iff_eq.1 hk
      cases hname : s.templates[name]? with
      | none => rfl
      | some t =>
        have hvalid := Source.validate_of_compile (h name t hname)
        change ∀ c ∈ t.conditions, c.validate = .ok c at hvalid
        rw [Option.map_some, Template.rendered, Template.checkAll_of_validate hvalid]
    · rfl
  rw [rendered, htemplates]

theorem IsFresh.run_sources (h : s.IsFresh) (command : Command) :
    Prod.map (Except.map Reply.unversioned) sources (s.run command) =
      s.sources.run s.options command := by
  cases command with
  | load name source =>
    rw [run, change_sources, load_sources]
    rfl
  | update name source =>
    rw [run, change_sources, update_sources]
    rfl
  | delete name =>
    rw [run, change_sources, delete_sources]
    rfl
  | clear =>
    refine Prod.ext rfl (Std.ExtTreeMap.ext_getElem? fun k ↦ ?_)
    exact (getElem?_sources _ k).trans (by simp [clear, Sources.run])
  | clone => rfl
  | loadBatch texts =>
    rw [Sources.run, ← s.loadBatch_sources]
    rfl
  | get name => exact Prod.ext (congrArg (Except.ok ∘ Reply.template) (h.get_sources name)) rfl
  | contains name =>
    exact Prod.ext (congrArg (Except.ok ∘ Reply.present) Std.ExtTreeMap.contains_map.symm) rfl
  | names =>
    exact Prod.ext (congrArg (Except.ok ∘ Reply.names) Std.ExtTreeMap.keys_map.symm) rfl
  | stats => exact Prod.ext (congrArg (Except.ok ∘ Reply.stats) h.stats_sources) rfl
  | render name args =>
    rw [run, Sources.run, h.rendered_eq, ← h.render_sources]
    cases s.render name args <;> rfl
  | renderTraced name args =>
    rw [run, Sources.run, h.rendered_eq, ← h.render_sources]
    cases s.render name args <;> rfl

theorem IsFresh.run (h : s.IsFresh) (command : Command) : (s.run command).2.IsFresh := by
  cases command with
  | load name source => exact h.change fun _ ↦ h.load
  | update name source => exact h.change fun _ ↦ h.update
  | delete name => exact h.change fun _ ↦ h.delete
  | clear =>
    intro name t ht
    simp [Store.run, clear] at ht
  | loadBatch texts => exact h.loadBatch texts
  | render name args | renderTraced name args =>
    rw [Store.run, h.rendered_eq]
    exact h
  | clone | get | contains | names | stats => exact h

/-- Whether a command is there for its answer only. -/
def Command.reads : Command → Bool
  | .get _ | .contains _ | .names | .stats | .render .. | .renderTraced .. => true
  | .load .. | .update .. | .delete _ | .clear | .clone | .loadBatch _ => false

theorem IsFresh.run_of_reads (h : s.IsFresh) {command : Command} (hreads : command.reads = true) :
    (s.run command).2 = s := by
  cases command with
  | get | contains | names | stats => rfl
  | render name args | renderTraced name args => exact h.rendered_eq name args
  | load | update | delete | clear | clone | loadBatch => cases hreads

omit [Hasher] in
theorem change_of_error {outcome : Except Failure Store} {failure : Failure}
    (h : (s.change outcome).1 = .error failure) : (s.change outcome).2 = s := by
  cases outcome with
  | error => rfl
  | ok s' => cases h

theorem IsFresh.run_of_error (h : s.IsFresh) {command : Command} {failure : Failure}
    (hfail : (s.run command).1 = .error failure) : (s.run command).2 = s := by
  cases command with
  | load | update | delete => exact change_of_error hfail
  | clear | clone | loadBatch => cases hfail
  | get | contains | names | stats | render | renderTraced => exact h.run_of_reads rfl

end Store

namespace Session

variable {ι : Type} {w : Session ι} {options : Options}

/-- The text of each template. -/
def sources (w : Session ι) : Sources := w.templates.map fun _ t ↦ t.source

/-- All handles have the same options, and every template is what its text compiles to. -/
structure IsFresh (options : Options) (w : Session ι) : Prop where
  options_eq : ∀ i, w.options i = options
  store_isFresh : ∀ i, (w.store i).IsFresh

def Step.reads : Step ι → Bool
  | .command _ c => c.reads
  | .size _ | .isEmpty _ => true
  | .clone .. => false

def Answer.isFailure : Answer → Bool
  | .reply (.error _) => true
  | _ => false

theorem isFresh_new (options : Options) : (new options : Session ι).IsFresh options where
  options_eq _ := rfl
  store_isFresh _ name t ht := by simp [new, store] at ht

variable [DecidableEq ι]

theorem IsFresh.run (h : w.IsFresh options) (step : Step ι) : (w.run step).2.IsFresh options := by
  cases step with
  | command i command => exact ⟨h.options_eq, fun _ ↦ (h.store_isFresh i).run command⟩
  | size | isEmpty => exact h
  | clone i j =>
    refine ⟨fun k ↦ ?_, h.store_isFresh⟩
    by_cases hk : k = j
    · simpa [Session.run, hk] using h.options_eq i
    · simpa [Session.run, hk] using h.options_eq k

theorem IsFresh.run_sources (h : w.IsFresh options) (step : Step ι) :
    Prod.map Answer.unversioned sources (w.run step) = w.sources.step options step := by
  cases step with
  | command i command =>
    have hrun := (h.store_isFresh i).run_sources command
    rw [Sources.step, ← h.options_eq i]
    exact congrArg (Prod.map Answer.reply id) hrun
  | size i => exact Prod.ext (congrArg Answer.size Std.ExtTreeMap.size_map.symm) rfl
  | isEmpty i =>
    have hempty : w.templates.isEmpty = w.sources.isEmpty := by
      simp only [sources, Std.ExtTreeMap.isEmpty_eq_size_beq_zero, Std.ExtTreeMap.size_map]
    exact Prod.ext (congrArg Answer.isEmpty hempty) rfl
  | clone => rfl

theorem IsFresh.runAll_sources (h : w.IsFresh options) (steps : List (Step ι)) :
    Prod.map (List.map Answer.unversioned) sources (w.runAll steps) =
        w.sources.runAll options steps ∧
      (w.runAll steps).2.IsFresh options := by
  induction steps generalizing w with
  | nil => exact ⟨rfl, h⟩
  | cons step steps ih =>
    obtain ⟨hsources, hfresh⟩ := ih (h.run step)
    refine ⟨?_, hfresh⟩
    rw [Sources.runAll, ← h.run_sources step]
    dsimp only [Prod.map]
    rw [← hsources]
    rfl

theorem IsFresh.run_eq (h : w.IsFresh options) {step : Step ι}
    (hstep : step.reads = true ∨ (w.run step).1.isFailure = true) : (w.run step).2 = w := by
  cases step with
  | command i command =>
    have hstore : ((w.store i).run command).2 = w.store i := by
      rcases hstep with hreads | hfail
      · exact (h.store_isFresh i).run_of_reads hreads
      · cases hreply : ((w.store i).run command).1 with
        | error failure => exact (h.store_isFresh i).run_of_error hreply
        | ok reply =>
          simp [Session.run, hreply, Answer.isFailure] at hfail
    exact congrArg (fun s ↦ { w with templates := s.templates, compiler := s.compiler }) hstore
  | size | isEmpty => rfl
  | clone => rcases hstep with hreads | hfail <;> contradiction

/-- Whatever is done through the handles of a store, every answer is the one of the map of the
texts loaded last, apart from the versions, and this is the map that the store holds. Then a step
that reads or fails leaves the templates, their stamps and the compiler as they are. -/
theorem runAll_plain (options : Options) (steps : List (Step ι)) :
    let w := (new options : Session ι).runAll steps
    w.1.map Answer.unversioned = ((∅ : Sources).runAll options steps).1 ∧
      w.2.sources = ((∅ : Sources).runAll options steps).2 ∧
      ∀ step : Step ι, step.reads = true ∨ (w.2.run step).1.isFailure = true →
        (w.2.run step).2 = w.2 := by
  have hnew : (new options : Session ι).sources = ∅ := by
    refine Std.ExtTreeMap.ext_getElem? fun k ↦ ?_
    simp [new, sources]
  obtain ⟨hsources, hfresh⟩ := (isFresh_new options).runAll_sources steps
  rw [hnew] at hsources
  exact ⟨congrArg Prod.fst hsources, congrArg Prod.snd hsources, fun _ ↦ hfresh.run_eq⟩

omit [Hasher] [DecidableEq ι] in
/-- An update with a text that does not compile leaves the template that is there. -/
theorem runAll_plain_update :
    let _ := Digest.hasher
    let w := ((new .standard : Session Unit).runAll [.command () (.load "size" "{0}")]).2
    let update := Step.command () (.update "size" "'")
    (w.run update).1.isFailure = true ∧ (w.run update).2 = w := by
  intro _ w update
  have hfail : (w.run update).1.isFailure = true := by decide +kernel
  exact ⟨hfail, (runAll_plain .standard _).2.2 update (.inr hfail)⟩

end Session

end Phrasing
