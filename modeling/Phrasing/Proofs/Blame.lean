import Phrasing.Proofs.Concatenation
import Phrasing.Proofs.Faults
import Phrasing.Proofs.Grammar.Blame

/-!
The character of a source that the offset of a failure points at.
-/

namespace Phrasing.Source

open Grammar Outcome

variable [Hasher]

def Compiles (s : List Char) : Prop := ∃ t, compile (String.ofList s) = .ok t

/-- The character `c` between two parts of a source, and the defect that makes the source refused
at `c`. A condition is at fault only when the text before its first quote compiles. -/
inductive Blamed : List Char → Char → List Char → Defect → Prop
  | unclosed {before after : List Char} (hbefore : Compiles before) (hafter : '\'' ∉ after) :
      Blamed before '\'' after .unclosedQuote
  | empty {before after : List Char} (hbefore : Compiles before) :
      Blamed before '\'' ('\'' :: after) .emptyCondition
  | inside {before earlier part rest after : List Char} {c : Char} {defect : Defect}
      (hbefore : Compiles before) (hbody : '\'' ∉ earlier ++ part ++ c :: rest)
      (hearlier : Branches earlier) (hc : Misplaced part c defect) :
      Blamed (before ++ '\'' :: (earlier ++ part)) c (rest ++ '\'' :: after) defect
  | closing {before body after : List Char} {defect : Defect} (hbefore : Compiles before)
      (hbody : '\'' ∉ body) (hdefect : Unfinished defect) :
      Blamed (before ++ '\'' :: body) '\'' after defect

variable {source lead : String} {before body after : List Char} {failure : Failure}
  {defect : Defect} {offset : Nat}

/-- The text `s` is refused at one of its characters, and that one is to blame. -/
def BlamedAt (s : List Char) (failure : Failure) : Prop :=
  ∃ front c back defect, s = front ++ c :: back ∧ failure = .malformed front.length defect ∧
    Blamed front c back defect

theorem blamedAt_of_rejected (hbefore : Compiles before) (hbody : '\'' ∉ body)
    (h : Rejected (before.length + 1) body failure) :
    BlamedAt (before ++ '\'' :: (body ++ '\'' :: after)) failure := by
  have hlen (s : List Char) : before.length + 1 + s.length = (before ++ '\'' :: s).length := by
    rw [List.length_append, List.length_cons]
    omega
  rcases h with ⟨earlier, -, rfl, hearlier, part, c, rest, defect, rfl, rfl, hc⟩ |
    ⟨defect, rfl, hdefect⟩
  · rw [Nat.add_assoc, ← List.length_append, hlen]
    rw [← List.append_assoc] at hbody
    refine ⟨_, c, rest ++ '\'' :: after, defect, ?_, rfl, .inside hbefore hbody hearlier hc⟩
    simp
  · rw [hlen]
    refine ⟨_, '\'', after, defect, ?_, rfl, .closing hbefore hbody hdefect⟩
    simp

/-- The offset of a failure is that of a character of the source, which is one that the failure
speaks of, and the text before the condition at fault compiles. -/
theorem blamed_of_compile (h : compile source = .error failure)
    (ho : failure.offset? = some offset) :
    offset < source.length ∧ ∃ front c back defect, source.toList = front ++ c :: back ∧
      front.length = offset ∧ failure = .malformed offset defect ∧ Blamed front c back defect := by
  have hblamed : BlamedAt source.toList failure := by
    obtain ⟨before, rest, conditions, tail, hsource, hbefore, hfailed⟩ :=
      exists_of_readText_error (compile_eq_error_iff.1 h)
    have hcompiles : Compiles before := ⟨_, compile_of_readText hbefore⟩
    rw [hsource]
    simp only [Nat.zero_add] at hfailed
    rcases hfailed with ⟨hrest, rfl⟩ | ⟨body, after, rfl, hbody, hquoted⟩
    · exact ⟨before, '\'', rest, _, rfl, rfl, .unclosed hcompiles hrest⟩
    · rcases fault_of_readQuoted hquoted with ⟨rfl, rfl⟩ | hread | ⟨rfl, -⟩
      · exact ⟨before, '\'', '\'' :: after, _, rfl, rfl, .empty hcompiles⟩
      · exact blamedAt_of_rejected hcompiles hbody (rejected_of_read hread)
      · cases ho
  obtain ⟨front, c, back, defect, hsource, rfl, hc⟩ := hblamed
  obtain rfl : front.length = offset := Option.some.inj ho
  refine ⟨?_, front, c, back, defect, hsource, rfl, rfl, hc⟩
  rw [← String.length_toList, hsource]
  simp

omit [Hasher] in
theorem blamed_of_compile_operand : ∃ failure,
    @compile Digest.hasher "'{0}=1:one|*:some' '{0}~2 .. 3:few|{1} = {x}:many|*:'" =
      .error failure ∧ failure.offset? = some 41 ∧
    41 < "'{0}=1:one|*:some' '{0}~2 .. 3:few|{1} = {x}:many|*:'".length ∧
    ∃ front c back defect,
      "'{0}=1:one|*:some' '{0}~2 .. 3:few|{1} = {x}:many|*:'".toList = front ++ c :: back ∧
      front.length = 41 ∧ failure = .malformed 41 defect ∧
      @Blamed Digest.hasher front c back defect := by
  let _ := Digest.hasher
  have hfailed : error? (compile "'{0}=1:one|*:some' '{0}~2 .. 3:few|{1} = {x}:many|*:'") =
      some (.malformed 41 (.badPointer "\x7bx\x7d")) := by decide +kernel
  have hfailed := error?_eq_some_iff.1 hfailed
  exact ⟨_, hfailed, rfl, blamed_of_compile hfailed rfl⟩

end Phrasing.Source
