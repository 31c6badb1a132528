import Phrasing.Proofs.Concatenation
import Phrasing.Proofs.Draft.Simulation
import Phrasing.Template.Scan

/-!
A template is read in one scan just as it is read part by part: where the scan stands, the rest of the
text is read with the plain text so far before it.
-/

namespace Phrasing.Template

open Source

variable {before body rest : List Char} {c : Char} {lead : String}

/-! ## One condition -/

theorem drop_quote (before rest : List Char) :
    (before ++ '\'' :: rest).drop (before.length + 1) = rest := by
  rw [List.append_cons, List.drop_left' (by simp)]

theorem findIdx?_plain (h : '\'' ∉ body) : body.findIdx? (· == '\'') = none := by
  rw [List.findIdx?_eq_none_iff]
  intro c hc
  rw [beq_eq_false_iff_ne]
  rintro rfl
  exact h hc

theorem findIdx?_quote (h : '\'' ∉ body) :
    (body ++ '\'' :: rest).findIdx? (· == '\'') = some body.length := by
  rw [List.findIdx?_append, findIdx?_plain h]
  simp [List.findIdx?_cons]

theorem scanQuoted_unclosed (h : '\'' ∉ body) :
    scanQuoted (before ++ '\'' :: body) before.length lead =
      .error (.malformed before.length .unclosedQuote) := by
  simp only [scanQuoted, drop_quote, findIdx?_plain h]

/-- A condition takes up the characters of its body, and two for the quotes. -/
theorem scanQuoted_closed (h : '\'' ∉ body) :
    scanQuoted (before ++ '\'' :: (body ++ '\'' :: rest)) before.length lead =
      if body.isEmpty then .error (.malformed before.length .emptyCondition)
      else (Condition.read lead (before.length + 1) body).map
        (⟨·, body.length + 2, Nat.succ_pos _⟩) := by
  simp only [scanQuoted, drop_quote, findIdx?_quote h]
  cases body with
  | nil => rw [if_pos (by simp), if_pos (by simp)]
  | cons first body =>
    have hconsumed : before.length + 1 + (first :: body).length - before.length + 1 =
        (first :: body).length + 2 := by omega
    rw [if_neg (by simp), if_neg (by simp), Nat.add_sub_cancel_left, List.take_left,
      Draft.read_eq]
    simp only [hconsumed]
    exact Outcome.bind_pure_eq_map

variable [Hasher]

/-! ## One character -/

theorem scanFrom_end (text : List Char) (plain : String) (conditions : List Stamped) :
    scanFrom text text.length plain conditions = .ok (conditions, plain) := by
  rw [scanFrom, dif_neg (Nat.lt_irrefl _)]

theorem scanFrom_quote (before rest : List Char) (plain : String) (conditions : List Stamped) :
    scanFrom (before ++ '\'' :: rest) before.length plain conditions = (do
      let scanned ← scanQuoted (before ++ '\'' :: rest) before.length plain
      let condition ← (Stamped.new scanned.condition).validate
      scanFrom (before ++ '\'' :: rest) (before.length + scanned.consumed) ""
        (conditions ++ [condition])) := by
  rw [scanFrom, dif_pos (by simp), if_pos (by simp)]

/-- The scan reads a condition and goes on after its second quote. -/
theorem scanFrom_quoted (h : '\'' ∉ body) (before rest : List Char) (plain : String)
    (conditions : List Stamped) :
    scanFrom (before ++ '\'' :: (body ++ '\'' :: rest)) before.length plain conditions = (do
      let condition ← readQuoted plain before.length body
      scanFrom (before ++ '\'' :: (body ++ '\'' :: rest)) (before.length + (body.length + 2)) ""
        (conditions ++ [condition])) := by
  rw [scanFrom_quote, scanQuoted_closed h, readQuoted]
  cases body.isEmpty with
  | true => rfl
  | false =>
    cases Condition.read plain (before.length + 1) body with
    | error => rfl
    | ok condition => rfl

theorem scanFrom_cons (hc : c ≠ '\'') (before rest : List Char) (plain : String)
    (conditions : List Stamped) :
    scanFrom (before ++ c :: rest) before.length plain conditions =
      scanFrom (before ++ c :: rest) (before ++ [c]).length (plain.push c) conditions := by
  rw [scanFrom, dif_pos (by simp), if_neg (by simpa using hc)]
  simp

/-! ## The whole text -/

/-- The scan goes on to the next quote, and keeps what it has passed as plain text. -/
theorem scanFrom_append {passed : List Char} (h : '\'' ∉ passed) (before rest : List Char)
    (plain : String) (conditions : List Stamped) :
    scanFrom (before ++ (passed ++ rest)) before.length plain conditions =
      scanFrom (before ++ passed ++ rest) (before ++ passed).length
        (plain ++ String.ofList passed) conditions := by
  induction passed generalizing before plain with
  | nil => simp
  | cons c passed ih =>
    obtain ⟨hc, hpassed⟩ := not_or.1 (mt List.mem_cons.2 h)
    have hlater := ih hpassed (before ++ [c]) (plain.push c)
    rw [List.cons_append, scanFrom_cons (Ne.symm hc), List.append_cons, hlater]
    have hplain : plain.push c ++ String.ofList passed = plain ++ String.ofList (c :: passed) := by
      simp [← String.toList_inj]
    simp [hplain]

theorem scanFrom_eq_readText (s before : List Char) (conditions : List Stamped) :
    scanFrom (before ++ s) before.length "" conditions =
      (readText before.length s).map fun r ↦ (conditions ++ r.1, r.2) := by
  induction cut s generalizing before conditions with
  | plain h =>
    have happend := scanFrom_append h before [] "" conditions
    rw [List.append_nil, List.append_nil] at happend
    rw [happend, scanFrom_end, readText_plain h]
    simp [Except.map]
  | @unclosed plain body hplain hbody =>
    rw [scanFrom_append hplain, scanFrom_quote, scanQuoted_unclosed hbody,
      readText_unclosed hplain hbody, List.length_append]
    rfl
  | @quoted plain body rest hplain hbody hrest ih =>
    rw [scanFrom_append hplain, scanFrom_quoted hbody, readText_quoted hplain hbody,
      List.length_append, String.empty_append]
    cases readQuoted (String.ofList plain) (before.length + plain.length) body with
    | error => rfl
    | ok condition =>
      -- what follows the second quote is scanned with all of the text up to there before it
      have hlater := ih (before ++ plain ++ '\'' :: (body ++ ['\''])) (conditions ++ [condition])
      have htext : before ++ plain ++ '\'' :: (body ++ ['\'']) ++ rest =
          before ++ plain ++ '\'' :: (body ++ '\'' :: rest) := by simp
      have hpos : (before ++ plain ++ '\'' :: (body ++ ['\''])).length =
          before.length + plain.length + (body.length + 2) := by
        simp
        omega
      rw [htext, hpos] at hlater
      refine hlater.trans ?_
      change _ = (readText (before.length + plain.length + (body.length + 2)) rest >>= _).map _
      rcases readText (before.length + plain.length + (body.length + 2)) rest with e | ⟨later, tail⟩
      · rfl
      · simp [Except.map, bind, Except.bind, pure, Except.pure]

/-- A template is read in one scan just as it is read part by part. -/
theorem scan_eq_readSource (source : String) : scan source = readSource source := by
  have h := scanFrom_eq_readText source.toList [] []
  change scan source = _ at h
  rw [h]
  exact congrFun Except.map_id (readSource source)

end Phrasing.Template
