import Phrasing.Proofs.Grammar.Body
import Phrasing.Proofs.Printing.NumberText

/-!
A comparison that was read is derived again from the text it is written as, unless it holds an
infinite number.
-/

namespace Phrasing

def Binary64.isInfinite : Binary64 → Bool
  | infinity _ => true
  | _ => false

/-- Neither a float nor a bound is infinite. -/
def Operand.IsFinite : Operand → Prop
  | .float x => x.isInfinite = false
  | .range low high => low.isInfinite = false ∧ high.isInfinite = false
  | _ => True

instance (x : Operand) : Decidable x.IsFinite :=
  match x with
  | .float x => inferInstanceAs (Decidable (x.isInfinite = false))
  | .range low high =>
    inferInstanceAs (Decidable (low.isInfinite = false ∧ high.isInfinite = false))
  | .pointer _ | .integer _ | .text _ => .isTrue trivial

namespace Grammar

open Decimal

variable {s operand digits low high : List Char} {c : Char} {x y : Operand} {d e : Comparison}

/-- The characters of written comparisons, those of a text operand apart. -/
def isPrinted (c : Char) : Bool :=
  isNumeric c || ['{', '}', '!', '=', '<', '>', '~', 'i', 'n', 'f'].contains c

theorem isPrinted_of_isNumeric (h : isNumeric c) : isPrinted c := by simp [isPrinted, h]

theorem isPrinted_of_isDigit (h : c.isDigit) : isPrinted c :=
  isPrinted_of_isNumeric (isNumeric_of_isDigit h)

theorem isBlank_of_isDigit (h : c.isDigit) : Text.isBlank c = false := by
  have hbounds : 48 ≤ c.toNat ∧ c.toNat ≤ 57 := by
    simp only [Char.isDigit, Bool.and_eq_true, decide_eq_true_eq, UInt32.le_iff_toNat_le] at h
    exact h
  simp only [Text.isBlank, Text.blanks, List.any_cons, List.any_nil, Bool.or_eq_false_iff,
    Bool.and_eq_false_iff, decide_eq_false_iff_not, and_true]
  omega

theorem not_isBlank_of_isPrinted (h : isPrinted c) :
    Text.isBlank c = false ∧ c ≠ ':' ∧ c ≠ '\'' := by
  rcases Bool.or_eq_true_iff.1 h with h | h
  · rcases Bool.or_eq_true_iff.1 h with h | h
    · refine ⟨isBlank_of_isDigit h, ?_, ?_⟩
      all_goals
        intro hc
        rw [hc] at h
        cases h
    · have hmarks : ['+', '-', '.', 'e', 'E'].all fun c ↦
          !Text.isBlank c && c != ':' && c != '\'' := by decide
      simpa [and_assoc] using List.all_eq_true.1 hmarks c (List.contains_iff_mem.1 h)
  · have hmarks : ['{', '}', '!', '=', '<', '>', '~', 'i', 'n', 'f'].all fun c ↦
        !Text.isBlank c && c != ':' && c != '\'' := by decide
    simpa [and_assoc] using List.all_eq_true.1 hmarks c (List.contains_iff_mem.1 h)

theorem isPrinted_write {layout : Layout} {x : Binary64} (hnan : x.isNan = false) :
    ∀ c ∈ layout.write x, isPrinted c := by
  cases x with
  | finite x => exact fun c hc ↦ isPrinted_of_isNumeric ((real_finite layout x).numeric c hc)
  | infinity negative =>
    have hword : (layout.write (.infinity negative)).all isPrinted := by cases negative <;> rfl
    exact List.all_eq_true.1 hword
  | nan => cases hnan

theorem isNan_toBinary64 (negative : Bool) (d : Decimal) :
    (d.toBinary64 negative).isNan = false := by
  rcases toBinary64_cases negative d with ⟨x, hx, -⟩ | hinfinity
  · rw [hx]
    rfl
  · rw [hinfinity]
    rfl

theorem Real.not_isNan {x : Binary64} (h : Real s x) : x.isNan = false := by
  obtain ⟨hsign, hbody⟩ := h
  exact isNan_toBinary64 _ _

theorem isPrinted_pointerText (n : Nat) : ∀ c ∈ Operand.pointerText n, isPrinted c := by
  intro c hc
  simp only [Operand.pointerText, List.mem_append, List.mem_cons, List.not_mem_nil, or_false] at hc
  rcases hc with (rfl | hc) | rfl
  · rfl
  · exact isPrinted_of_isDigit ((whole_toDigits n).1.2 c hc)
  · rfl

theorem signed_write (i : Int) : Signed (Operand.integer i).write i := by
  have hs := Signed.mk (sign_sign (decide (i < 0))) (whole_toDigits i.natAbs)
  have hvalue : (if decide (i < 0) = true then -(i.natAbs : Int) else i.natAbs) = i := by
    split
    · next hneg =>
      have hneg := of_decide_eq_true hneg
      omega
    · next hpos =>
      rw [decide_eq_true_eq] at hpos
      omega
  rw [hvalue] at hs
  exact hs

theorem literal_write {i : Int} (h : Literal s i) : Literal (Operand.integer i).write i :=
  ⟨signed_write i, h.2⟩

theorem OperandText.mem_write (h : OperandText s x) (hc : c ∈ x.write) : c ∈ s ∨ isPrinted c := by
  cases h with
  | pointer => exact .inr (isPrinted_pointerText _ c hc)
  | integer h => exact .inr (isPrinted_of_isNumeric ((literal_write h).1.numeric c hc))
  | float _ h => exact .inr (isPrinted_write h.not_isNan c hc)
  | text =>
    rw [Operand.write, String.toList_ofList] at hc
    exact .inl hc

theorem not_literal_of_mark (hmark : ∃ c ∈ s, c = '.' ∨ c = 'e') : ¬∃ i, Literal s i := by
  intro h
  obtain ⟨i, ⟨hsign, hdigits⟩, -⟩ := h
  obtain ⟨c, hc, hmark⟩ := hmark
  rcases List.mem_append.1 hc with hc | hc
  · cases hsign with
    | absent => cases hc
    | plus | minus =>
      rw [List.mem_singleton.1 hc] at hmark
      revert hmark
      decide
  · have hdigit := hdigits.1.2 c hc
    rcases hmark with rfl | rfl <;> cases hdigit

/-- A finite operand that was read is read again from its text. -/
theorem OperandText.write (h : OperandText s x) (hfinite : x.IsFinite) : OperandText x.write x := by
  cases h with
  | @pointer digits n h => exact .pointer ⟨whole_toDigits n, h.2⟩
  | integer h => exact .integer (literal_write h)
  | @float s x hint h =>
    cases x with
    | finite x =>
      obtain ⟨c, hc, hmark⟩ := @exists_mark Operand.floatLayout rfl
        (shortest Operand.floatLayout.tie x.units)
      refine .float (not_literal_of_mark ⟨c, ?_, hmark⟩) (real_finite Operand.floatLayout x)
      exact List.mem_append_right _ hc
    | infinity => cases hfinite
    | nan => cases h.not_isNan
  | text hbrace hint hreal =>
    rw [Operand.write, String.toList_ofList]
    exact .text hbrace hint hreal

theorem not_isMark_of_isNumeric (h : isNumeric c) : Operator.isMark c = false := by
  rw [Bool.eq_false_iff]
  intro hmark
  simp only [Operator.isMark, Bool.or_eq_true, beq_iff_eq] at hmark
  rcases hmark with ((rfl | rfl) | rfl) | rfl <;> exact absurd h (by decide)

theorem unmarked_of_numeric (h : ∀ c ∈ s, isNumeric c) : Unmarked s :=
  fun c hc ↦ not_isMark_of_isNumeric (h c (List.mem_of_head? hc))

theorem OperandText.write_start (h : OperandText s x) (hne : s ≠ []) (hunmarked : Unmarked s)
    (hfinite : x.IsFinite) : x.write ≠ [] ∧ Unmarked x.write := by
  cases h with
  | pointer =>
    refine ⟨by simp [Operand.write, Operand.pointerText], fun c hc ↦ ?_⟩
    obtain rfl := Option.some.inj hc
    rfl
  | integer h =>
    have hs := literal_write h
    refine ⟨fun hnil ↦ ?_, unmarked_of_numeric hs.1.numeric⟩
    rw [Operand.write, List.append_eq_nil_iff] at hnil
    exact Nat.toDigits_ne_nil hnil.2
  | @float s x hint h =>
    cases x with
    | finite x =>
      have hs := real_finite Operand.floatLayout x
      refine ⟨fun hnil ↦ ?_, unmarked_of_numeric hs.numeric⟩
      obtain ⟨c, hc, -⟩ := hs.exists_digit
      exact List.ne_nil_of_mem hc hnil
    | infinity => cases hfinite
    | nan => cases h.not_isNan
  | text =>
    rw [Operand.write, String.toList_ofList]
    exact ⟨hne, hunmarked⟩

theorem Comparison.write_eq (d : Comparison) : d.write = '{' :: (Nat.toDigits 10 d.target ++
    '}' :: ((if d.negate then ['!'] else []) ++ (d.operator.token.toList ++ d.operand.write))) := by
  simp [Phrasing.Comparison.write, Operand.pointerText]

theorem exists_whole_write {n : Nat} (hfinite : (toBinary64 false ⟨n, 0⟩).isInfinite = false) :
    ∃ m, Whole (Layout.positional.write (toBinary64 false ⟨n, 0⟩)) m ∧
      toBinary64 false ⟨m, 0⟩ = toBinary64 false ⟨n, 0⟩ := by
  rcases toBinary64_whole_cases n with ⟨x, hx, hpositive, hdvd⟩ | hinfinity
  · rw [hx]
    exact exists_whole_positional hpositive hdvd
  · rw [hinfinity] at hfinite
    cases hfinite

/-- A comparison of finite numbers is derived again from the text it is written as. -/
theorem ComparisonText.write (h : ComparisonText s d) (hfinite : d.operand.IsFinite) :
    ComparisonText d.write d := by
  rw [Comparison.write_eq]
  cases h with
  | @plain digits operand n negate o x htarget ho hne hcolon hunmarked hx =>
    obtain ⟨hwritten, hstart⟩ := hx.write_start hne hunmarked hfinite
    refine .plain ⟨whole_toDigits n, htarget.2⟩ ho hwritten ?_ hstart (hx.write hfinite)
    intro hmem
    rcases hx.mem_write hmem with hmem | hprinted
    · exact hcolon hmem
    · exact (not_isBlank_of_isPrinted hprinted).2.1 rfl
  | @range digits low high n l h negate htarget hlow hhigh =>
    obtain ⟨l', hl, hlow⟩ := exists_whole_write hfinite.1
    obtain ⟨h', hh, hhigh⟩ := exists_whole_write hfinite.2
    have hs := @ComparisonText.range _ _ _ n _ _ negate ⟨whole_toDigits n, htarget.2⟩ hl hh
    rw [hlow, hhigh] at hs
    have htoken : Operator.range.token.toList = ['~'] := rfl
    simp only [Operand.write, htoken, List.cons_append, List.nil_append]
    exact hs

theorem ComparisonText.mem_write (h : ComparisonText s d) (hc : c ∈ d.write) :
    c ∈ s ∨ isPrinted c := by
  simp only [Comparison.write, List.mem_append] at hc
  rcases hc with ((hc | hc) | hc) | hc
  · exact .inr (isPrinted_pointerText _ c hc)
  · refine .inr ?_
    split at hc
    · rw [List.mem_singleton.1 hc]
      rfl
    · cases hc
  · refine .inr ?_
    have htoken (o : Operator) : o.token.toList.all isPrinted := by cases o <;> decide
    exact List.all_eq_true.1 (htoken _) c hc
  · cases h with
    | plain htarget ho hne hcolon hunmarked hx =>
      rcases hx.mem_write hc with hc | hprinted
      · exact .inl (by simp [hc])
      · exact .inr hprinted
    | range htarget hlow hhigh =>
      simp only [Operand.write, List.mem_append, List.mem_cons] at hc
      rcases hc with hc | rfl | rfl | hc
      · exact .inr (isPrinted_write (isNan_toBinary64 _ _) c hc)
      · exact .inr rfl
      · exact .inr rfl
      · exact .inr (isPrinted_write (isNan_toBinary64 _ _) c hc)

theorem ComparisonText.not_mem_letter (h : ComparisonText s d)
    (hkind : ∀ t, d.operand ≠ .text t) : 'i' ∉ s := by
  have hdigits {digits : List Char} (h : ∀ c ∈ digits, c.isDigit) : 'i' ∉ digits := by
    intro hmem
    exact absurd (h _ hmem) (by decide)
  have htoken (o : Operator) : 'i' ∉ o.token.toList := by cases o <;> decide
  have hnumeric {s : List Char} (h : ∀ c ∈ s, isNumeric c) : 'i' ∉ s := by
    intro hmem
    exact absurd (h _ hmem) (by decide)
  cases h with
  | @plain digits operand n negate o x htarget ho hne hcolon hunmarked hx =>
    have hoperand : 'i' ∉ operand := by
      cases hx with
      | pointer h => simp [hdigits h.1.1.2]
      | integer h => exact hnumeric h.1.numeric
      | float _ h => exact hnumeric h.numeric
      | text => exact absurd rfl (hkind _)
    cases negate <;> simp [hdigits htarget.1.1.2, htoken, hoperand]
  | @range digits low high n l h negate htarget hlow hhigh =>
    cases negate <;> simp [hdigits htarget.1.1.2, hdigits hlow.1.2, hdigits hhigh.1.2]

theorem letter_mem_write {layout : Layout} {x : Binary64} (hinfinite : ¬x.isInfinite = false) :
    'i' ∈ layout.write x := by
  cases x with
  | infinity => exact List.mem_append_right _ (by decide)
  | finite | nan => exact absurd rfl hinfinite

theorem ComparisonText.letter_mem_write (h : ComparisonText s d)
    (hinfinite : ¬d.operand.IsFinite) : 'i' ∈ d.write := by
  apply List.mem_append_right
  cases h with
  | plain htarget ho hne hcolon hunmarked hx =>
    cases hx with
    | float => exact Grammar.letter_mem_write hinfinite
    | pointer | integer | text => exact absurd trivial hinfinite
  | @range digits low high n l h negate htarget hlow hhigh =>
    by_cases hfinite : (toBinary64 false ⟨l, 0⟩).isInfinite = false
    · have hmem := @Grammar.letter_mem_write .positional _ fun hh ↦ hinfinite ⟨hfinite, hh⟩
      exact List.mem_append_right _ (.tail _ (.tail _ hmem))
    · exact List.mem_append_left _ (Grammar.letter_mem_write hfinite)

theorem eq_self {x : Binary64} (hnan : x.isNan = false) : x.eq x = true := by
  cases x with
  | finite | infinity => simp [Binary64.eq, Binary64.holds, Binary64.key]
  | nan => cases hnan

/-- A comparison that was read is equal to itself: it holds nothing that is not a number. -/
theorem ComparisonText.same_self (h : ComparisonText s d) : d.same d = true := by
  have hoperand : d.operand.same d.operand = true := by
    cases h with
    | plain htarget ho hne hcolon hunmarked hx =>
      cases hx with
      | pointer | integer | text => simp [Operand.same]
      | float _ h => exact eq_self h.not_isNan
    | range => simp [Operand.same, eq_self (isNan_toBinary64 _ _)]
  simp [Comparison.same, hoperand]

theorem text_of_same {t : String} (h : x.same y = true) (hy : y = .text t) : ∃ t, x = .text t := by
  subst hy
  cases x with
  | text t => exact ⟨t, rfl⟩
  | pointer | integer | float | range => cases h

/-- An infinite number is written as a word, which is read as a text or not at all. -/
theorem ComparisonText.isFinite_of_same (h : ComparisonText s d) (he : ComparisonText d.write e)
    (hsame : d.same e = true) : d.operand.IsFinite := by
  -- the word has a letter, so what is read of it is at best a text
  refine Classical.byContradiction fun hinfinite ↦ ?_
  refine he.not_mem_letter (fun t ht ↦ ?_) (h.letter_mem_write hinfinite)
  simp only [Comparison.same, Bool.and_eq_true] at hsame
  obtain ⟨t, ht⟩ := text_of_same hsame.2 ht
  rw [ht] at hinfinite
  exact hinfinite trivial

end Grammar

end Phrasing
