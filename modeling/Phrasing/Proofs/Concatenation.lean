import Phrasing.Condition.Digest
import Phrasing.Proofs.Offset
import Phrasing.Proofs.Source

/-!
Compiling is compositional: a text put before another one changes neither what the other is read as
nor why it is refused, but for its offsets and for the first plain text.
-/

namespace Phrasing.Source

open Outcome

/-- A text by its quotes: no quote, a quote that is not closed, or a quoted part and more text. -/
inductive Cut : List Char → Prop
  | plain {s : List Char} (h : '\'' ∉ s) : Cut s
  | unclosed {plain body : List Char} (hplain : '\'' ∉ plain) (hbody : '\'' ∉ body) :
      Cut (plain ++ '\'' :: body)
  | quoted {plain body rest : List Char} (hplain : '\'' ∉ plain) (hbody : '\'' ∉ body)
      (hrest : Cut rest) : Cut (plain ++ '\'' :: (body ++ '\'' :: rest))

theorem cut (s : List Char) : Cut s := by
  induction hn : s.length using Nat.strongRecOn generalizing s with
  | ind n ih =>
    by_cases hs : '\'' ∈ s
    · obtain ⟨plain, rest, rfl, hplain⟩ := List.eq_append_cons_of_mem hs
      by_cases hrest : '\'' ∈ rest
      · obtain ⟨body, rest, rfl, hbody⟩ := List.eq_append_cons_of_mem hrest
        have hlt : rest.length < n := by
          simp only [List.length_append, List.length_cons] at hn
          omega
        exact .quoted hplain hbody (ih _ hlt rest rfl)
      · exact .unclosed hplain hrest
    · exact .plain hs

variable [Hasher]

/-- Reads a text that starts at `offset`. -/
def readText (offset : Nat) (s : List Char) : Except Failure (List Stamped × String) :=
  Template.readParts offset (s.splitOn '\'')

variable {s plain body rest : List Char} {offset : Nat} {tail : String}
  {conditions : List Stamped} {failure : Failure}

theorem readText_plain (h : '\'' ∉ s) : readText offset s = .ok ([], String.ofList s) := by
  rw [readText, List.splitOn_eq_singleton h]
  rfl

theorem readText_unclosed (hplain : '\'' ∉ plain) (hbody : '\'' ∉ body) :
    readText offset (plain ++ '\'' :: body) =
      .error (.malformed (offset + plain.length) .unclosedQuote) := by
  rw [readText, List.splitOn_append_cons_self_of_not_mem hplain, List.splitOn_eq_singleton hbody]
  rfl

theorem readText_quoted (hplain : '\'' ∉ plain) (hbody : '\'' ∉ body) :
    readText offset (plain ++ '\'' :: (body ++ '\'' :: rest)) = do
      let s ← Template.readQuoted (String.ofList plain) (offset + plain.length) body
      let (conditions, tail) ← readText (offset + plain.length + body.length + 2) rest
      return (s :: conditions, tail) := by
  rw [readText, List.splitOn_append_cons_self_of_not_mem hplain,
    List.splitOn_append_cons_self_of_not_mem hbody, Template.readParts]
  · rfl
  · exact List.splitOn_ne_nil _ _

/-- What is read of a text when there is more text before it. -/
def addLead (text : String) : List Stamped × String → List Stamped × String
  | ([], tail) => ([], text ++ tail)
  | (s :: conditions, tail) => (s.addLead text :: conditions, tail)

theorem readText_add (offset n : Nat) (s : List Char) :
    readText (offset + n) s = (readText offset s).mapError (Failure.shift n) := by
  induction cut s generalizing offset with
  | plain h =>
    rw [readText_plain h, readText_plain h]
    rfl
  | @unclosed plain body hplain hbody =>
    rw [readText_unclosed hplain hbody, readText_unclosed hplain hbody, Nat.add_right_comm]
    rfl
  | @quoted plain body rest hplain hbody hrest ih =>
    have hlater : offset + n + plain.length + body.length + 2 =
        offset + plain.length + body.length + 2 + n := by omega
    rw [readText_quoted hplain hbody, readText_quoted hplain hbody, hlater, ih,
      Nat.add_right_comm, Template.readQuoted_add]
    cases Template.readQuoted (String.ofList plain) (offset + plain.length) body with
    | error => rfl
    | ok c =>
      rcases readText (offset + plain.length + body.length + 2) rest with e | ⟨conditions, tail⟩ <;>
        rfl

theorem readText_plain_append (h : '\'' ∉ plain) (t : List Char) : readText offset (plain ++ t) =
    (readText (offset + plain.length) t).map (addLead (String.ofList plain)) := by
  cases cut t with
  | plain ht =>
    rw [readText_plain ht, readText_plain (by simp [h, ht])]
    simp [Except.map, addLead]
  | @unclosed plain' body hplain hbody =>
    rw [← List.append_assoc, readText_unclosed (by simp [h, hplain]) hbody,
      readText_unclosed hplain hbody, List.length_append, Nat.add_assoc]
    rfl
  | @quoted plain' body rest hplain hbody hrest =>
    rw [← List.append_assoc, readText_quoted (by simp [h, hplain]) hbody,
      readText_quoted hplain hbody, List.length_append, ← Nat.add_assoc, String.ofList_append,
      Template.readQuoted_append]
    cases Template.readQuoted (String.ofList plain') (offset + plain.length + plain'.length) body with
    | error => rfl
    | ok c =>
      rcases readText (offset + plain.length + plain'.length + body.length + 2) rest with
        e | ⟨conditions, tail⟩ <;> rfl

/-- After a text that is read, the rest is read as if it stood alone, but that its offsets are
greater and the tail before it belongs to its first plain text. -/
theorem readText_append (h : readText offset s = .ok (conditions, tail)) (t : List Char) :
    readText offset (s ++ t) = (readText (offset + s.length) t).map fun r ↦
      (conditions ++ (addLead tail r).1, (addLead tail r).2) := by
  induction cut s generalizing offset conditions with
  | plain hs =>
    rw [readText_plain hs] at h
    cases h
    rw [readText_plain_append hs]
    rfl
  | unclosed hplain hbody =>
    rw [readText_unclosed hplain hbody] at h
    cases h
  | @quoted plain body rest hplain hbody hrest ih =>
    rw [readText_quoted hplain hbody] at h
    obtain ⟨c, hquoted, h⟩ := bind_eq_ok_iff.1 h
    obtain ⟨⟨later, tail'⟩, hlater, h⟩ := bind_eq_ok_iff.1 h
    cases h
    have hlen : offset + (plain ++ '\'' :: (body ++ '\'' :: rest)).length =
        offset + plain.length + body.length + 2 + rest.length := by
      simp only [List.length_append, List.length_cons]
      omega
    have htext : plain ++ '\'' :: (body ++ '\'' :: rest) ++ t =
        plain ++ '\'' :: (body ++ '\'' :: (rest ++ t)) := by simp
    rw [htext, readText_quoted hplain hbody, hquoted, ih hlater, hlen]
    cases readText (offset + plain.length + body.length + 2 + rest.length) t <;> rfl

/-- A text is refused at its first quote that is not closed or that opens a refused condition; the
text before that quote is read. -/
theorem exists_of_readText_error (h : readText offset s = .error failure) :
    ∃ before rest conditions tail, s = before ++ '\'' :: rest ∧
      readText offset before = .ok (conditions, tail) ∧
      (('\'' ∉ rest ∧ failure = .malformed (offset + before.length) .unclosedQuote) ∨
        ∃ body after, rest = body ++ '\'' :: after ∧ '\'' ∉ body ∧
          Template.readQuoted tail (offset + before.length) body = .error failure) := by
  induction cut s generalizing offset with
  | plain hs =>
    rw [readText_plain hs] at h
    cases h
  | @unclosed plain body hplain hbody =>
    rw [readText_unclosed hplain hbody] at h
    cases h
    exact ⟨plain, body, [], String.ofList plain, rfl, readText_plain hplain, .inl ⟨hbody, rfl⟩⟩
  | @quoted plain body rest hplain hbody hrest ih =>
    rw [readText_quoted hplain hbody] at h
    rcases bind_eq_error_iff.1 h with hquoted | ⟨c, hquoted, h⟩
    · exact ⟨plain, body ++ '\'' :: rest, [], String.ofList plain, rfl, readText_plain hplain,
        .inr ⟨body, rest, rfl, hbody, hquoted⟩⟩
    · rcases bind_eq_error_iff.1 h with hlater | ⟨r, -, h⟩
      · obtain ⟨before, rest', conditions, tail, rfl, hbefore, hfailed⟩ := ih hlater
        have hlen : offset + (plain ++ '\'' :: (body ++ '\'' :: before)).length =
            offset + plain.length + body.length + 2 + before.length := by
          simp only [List.length_append, List.length_cons]
          omega
        refine ⟨plain ++ '\'' :: (body ++ '\'' :: before), rest', c :: conditions, tail, by simp, ?_, ?_⟩
        · rw [readText_quoted hplain hbody, hquoted, hbefore]
          rfl
        · rwa [hlen]
      · cases h

/-- A condition that is refused after a text that is read makes the whole text refused. -/
theorem readText_error_of_readQuoted {before after : List Char}
    (hbefore : readText offset before = .ok (conditions, tail)) (hbody : '\'' ∉ body)
    (h : Template.readQuoted tail (offset + before.length) body = .error failure) :
    readText offset (before ++ '\'' :: (body ++ '\'' :: after)) = .error failure := by
  have hempty : '\'' ∉ ([] : List Char) := List.not_mem_nil
  rw [← @String.append_empty tail, Template.readQuoted_append] at h
  have halone := @readText_quoted _ [] body after (offset + before.length) hempty hbody
  rw [List.nil_append, List.length_nil, Nat.add_zero, String.ofList_nil, map_eq_error_iff.1 h] at halone
  rw [readText_append hbefore, halone]
  rfl

theorem compile_eq_readText (source : String) : compile source =
    (readText 0 source.toList).map fun r ↦ ⟨source, r.1, r.2, Template.indicesOf r.1 r.2, 1⟩ :=
  compile_eq_map source

variable {source : String} {t : Template}

theorem readText_of_compile (h : compile source = .ok t) :
    readText 0 source.toList = .ok (t.conditions, t.tail) := by
  rw [compile_eq_readText] at h
  obtain ⟨r, hread, rfl⟩ := map_eq_ok_iff.1 h
  exact hread

theorem compile_of_readText (h : readText 0 s = .ok (conditions, tail)) :
    compile (String.ofList s) =
      .ok ⟨String.ofList s, conditions, tail, Template.indicesOf conditions tail, 1⟩ := by
  rw [compile_eq_readText, String.toList_ofList, h]
  rfl

theorem compile_eq_error_iff :
    compile source = .error failure ↔ readText 0 source.toList = .error failure := by
  rw [compile_eq_readText, map_eq_error_iff]

theorem addLead_eq (text : String) (conditions : List Stamped) (tail : String) :
    addLead text (conditions, tail) = (conditions.modifyHead (Stamped.addLead text),
      if conditions.isEmpty then text ++ tail else tail) := by
  cases conditions <;> rfl

/-- After a text that compiles, another one compiles or is refused as it does alone: its conditions
follow, the first plain text of it continues the tail, and offsets count from the start of both. A
text that is refused, but not for an open quote, is refused alike whatever follows it. -/
theorem compile_append (source more : String) :
    (∀ t, compile source = .ok t →
      ((∃ t', compile (source ++ more) = .ok t') ↔ ∃ u, compile more = .ok u) ∧
      (∀ u, compile more = .ok u → ∃ t', compile (source ++ more) = .ok t' ∧
        t'.conditions = t.conditions ++ u.conditions.modifyHead (Stamped.addLead t.tail) ∧
        t'.tail = if u.conditions.isEmpty then t.tail ++ u.tail else u.tail) ∧
      ∀ failure, compile more = .error failure →
        compile (source ++ more) = .error (failure.shift source.length)) ∧
    ∀ failure, compile source = .error failure →
      (∀ offset, failure ≠ .malformed offset .unclosedQuote) →
        compile (source ++ more) = .error failure := by
  refine ⟨fun t ht ↦ ?_, fun failure hfailure hclosed ↦ ?_⟩
  · have hread : readText 0 (source ++ more).toList =
        ((readText 0 more.toList).mapError (Failure.shift source.length)).map fun r ↦
          (t.conditions ++ (addLead t.tail r).1, (addLead t.tail r).2) := by
      rw [String.toList_append, readText_append (readText_of_compile ht), readText_add,
        String.length_toList]
    have hok : ∀ u, compile more = .ok u → ∃ t', compile (source ++ more) = .ok t' ∧
        t'.conditions = t.conditions ++ u.conditions.modifyHead (Stamped.addLead t.tail) ∧
        t'.tail = if u.conditions.isEmpty then t.tail ++ u.tail else u.tail := by
      intro u hu
      rw [readText_of_compile hu] at hread
      rw [compile_eq_readText, hread]
      refine ⟨_, rfl, ?_, ?_⟩ <;> simp only [addLead_eq]
    have herror : ∀ failure, compile more = .error failure →
        compile (source ++ more) = .error (failure.shift source.length) := by
      intro failure hfailure
      rw [compile_eq_error_iff.1 hfailure] at hread
      exact compile_eq_error_iff.2 hread
    refine ⟨⟨fun h ↦ ?_, fun h ↦ ?_⟩, hok, herror⟩
    · obtain ⟨t', ht'⟩ := h
      cases hmore : compile more with
      | ok u => exact ⟨u, rfl⟩
      | error failure => cases ht'.symm.trans (herror failure hmore)
    · obtain ⟨u, hu⟩ := h
      obtain ⟨t', ht', -⟩ := hok u hu
      exact ⟨t', ht'⟩
  · obtain ⟨before, rest, conditions, tail, hsource, hbefore, hfailed⟩ :=
      exists_of_readText_error (compile_eq_error_iff.1 hfailure)
    rcases hfailed with ⟨-, hunclosed⟩ | ⟨body, after, rfl, hbody, hquoted⟩
    · exact absurd hunclosed (hclosed _)
    · have htext : (source ++ more).toList =
          before ++ '\'' :: (body ++ '\'' :: (after ++ more.toList)) := by simp [hsource]
      rw [compile_eq_error_iff, htext]
      exact readText_error_of_readQuoted hbefore hbody hquoted

omit [Hasher] in
theorem compile_append_list :
    (∃ t u, @compile Digest.hasher "{0} '{0}=1:item|*:items', " = .ok t ∧
      @compile Digest.hasher "of '{1}>9:many|*:few'!" = .ok u ∧
      ∃ t', @compile Digest.hasher ("{0} '{0}=1:item|*:items', " ++ "of '{1}>9:many|*:few'!") = .ok t' ∧
        t'.conditions = t.conditions ++ u.conditions.modifyHead (@Stamped.addLead Digest.hasher t.tail) ∧
        t'.tail = if u.conditions.isEmpty then t.tail ++ u.tail else u.tail) ∧
    (@compile Digest.hasher "of '{1}>9:|*:few'" = .error (.malformed 10 .noResult) ∧
      @compile Digest.hasher ("{0} '{0}=1:item|*:items', " ++ "of '{1}>9:|*:few'") =
        .error (.malformed 36 .noResult)) ∧
    @compile Digest.hasher "of '{1}>9:|*:few'" = .error (.malformed 10 .noResult) ∧
      @compile Digest.hasher ("of '{1}>9:|*:few'" ++ " or 'not") = .error (.malformed 10 .noResult) := by
  let _ := Digest.hasher
  have hfirst : (compile "{0} '{0}=1:item|*:items', ").toOption.isSome := by decide +kernel
  have hlater : (compile "of '{1}>9:many|*:few'!").toOption.isSome := by decide +kernel
  have hrefused : error? (compile "of '{1}>9:|*:few'") = some (.malformed 10 .noResult) := by
    decide +kernel
  have hrefused := error?_eq_some_iff.1 hrefused
  obtain ⟨t, ht⟩ := Option.isSome_iff_exists.1 hfirst
  obtain ⟨u, hu⟩ := Option.isSome_iff_exists.1 hlater
  have ht := toOption_eq_some_iff.1 ht
  have hu := toOption_eq_some_iff.1 hu
  refine ⟨⟨t, u, ht, hu, ?_⟩, ⟨hrefused, ?_⟩, hrefused, ?_⟩
  · exact ((compile_append _ _).1 t ht).2.1 u hu
  · exact ((compile_append _ _).1 t ht).2.2 _ hrefused
  · exact (compile_append _ _).2 _ hrefused (by simp)

end Phrasing.Source
