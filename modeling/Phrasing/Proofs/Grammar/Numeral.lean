import Phrasing.Decimal.Rounding
import Phrasing.Branch.Literal

/-!
The grammar of numbers, and that the readers of numbers accept just what it derives.
-/

namespace Phrasing.Grammar

/-- An optional sign, and whether it is a minus. -/
inductive Sign : List Char → Bool → Prop
  | absent : Sign [] false
  | plus : Sign ['+'] false
  | minus : Sign ['-'] true

/-- At least one ASCII digit, and the number the digits make. -/
def Whole (s : List Char) (n : Nat) : Prop :=
  (s ≠ [] ∧ ∀ c ∈ s, c.isDigit) ∧ Nat.ofDigitChars 10 s 0 = n

/-- A whole number below `2 ^ 64`. -/
def Index (s : List Char) (n : Nat) : Prop := Whole s n ∧ n < Numeral.indexLimit

inductive Signed : List Char → Int → Prop
  | mk {sign digits : List Char} {negative : Bool} {n : Nat} (hsign : Sign sign negative)
      (hdigits : Whole digits n) : Signed (sign ++ digits) (if negative then -(n : Int) else n)

/-- A whole number of 64 bits with a sign. -/
def Literal (s : List Char) (n : Int) : Prop :=
  Signed s n ∧ -0x8000000000000000 ≤ n ∧ n < 0x8000000000000000

/-- An optional point with digits after it, if there are any. -/
inductive Fraction : List Char → List Char → Prop
  | absent : Fraction [] []
  | point {digits : List Char} (h : ∀ c ∈ digits, c.isDigit) : Fraction ('.' :: digits) digits

/-- An optional power of ten. -/
inductive Power : List Char → Int → Prop
  | absent : Power [] 0
  | mark {c : Char} {s : List Char} {e : Int} (hmark : c = 'e' ∨ c = 'E') (hs : Signed s e) :
      Power (c :: s) e

/-- Digits around an optional point, at least one in all, and an optional power of ten. -/
inductive Unsigned : List Char → Decimal → Prop
  | mk {whole point fraction power : List Char} {e : Int} (hwhole : ∀ c ∈ whole, c.isDigit)
      (hpoint : Fraction point fraction) (hany : whole ++ fraction ≠ []) (hpower : Power power e) :
      Unsigned (whole ++ (point ++ power))
        ⟨Nat.ofDigitChars 10 (whole ++ fraction) 0, e - fraction.length⟩

/-- A decimal number with an optional sign, and the double nearest to it. -/
inductive Real : List Char → Binary64 → Prop
  | mk {sign body : List Char} {negative : Bool} {d : Decimal} (hsign : Sign sign negative)
      (hbody : Unsigned body d) : Real (sign ++ body) (d.toBinary64 negative)

variable {s sign digits body rest : List Char} {negative : Bool} {n : Nat} {i e : Int} {d : Decimal}

theorem natural?_iff : Numeral.natural? s = some n ↔ Whole s n := Numeral.natural?_eq_some_iff

theorem index?_iff : Numeral.index? s = some n ↔ Index s n := by
  rw [Numeral.index?_eq_some_iff, natural?_iff, Index]

def Plain (s : List Char) : Prop := ∀ c, s.head? = some c → c ≠ '+' ∧ c ≠ '-'

theorem plain_cons {c : Char} (h : c.isDigit ∨ c = '.') : Plain (c :: s) := by
  intro d hd
  obtain rfl : c = d := by simpa using hd
  constructor
  all_goals
    intro heq
    subst heq
    revert h
    decide

theorem Whole.plain (h : Whole s n) : Plain s := by
  cases s with
  | nil => exact absurd rfl h.1.1
  | cons c s => exact plain_cons (.inl (h.1.2 c (by simp)))

theorem splitSign_append (hsign : Sign sign negative) (hbody : Plain body) :
    Numeral.splitSign (sign ++ body) = (negative, body) := by
  cases hsign with
  | plus | minus => rfl
  | absent =>
    cases body with
    | nil => rfl
    | cons c s =>
      have hc := hbody c rfl
      simp [Numeral.splitSign, hc]

theorem sign_splitSign (s : List Char) :
    ∃ sign, Sign sign (Numeral.splitSign s).1 ∧ s = sign ++ (Numeral.splitSign s).2 := by
  unfold Numeral.splitSign
  split
  · exact ⟨_, .minus, rfl⟩
  · exact ⟨_, .plus, rfl⟩
  · exact ⟨_, .absent, rfl⟩

theorem integer?_iff : Numeral.integer? s = some i ↔ Signed s i := by
  constructor
  · intro h
    obtain ⟨sign, hsign, hs⟩ := sign_splitSign s
    simp only [Numeral.integer?] at h
    generalize Numeral.splitSign s = p at h hsign hs
    obtain ⟨m, hm, rfl⟩ := Option.map_eq_some_iff.1 h
    obtain ⟨n, hn, hnm⟩ := Option.bind_eq_some_iff.1 hm
    obtain rfl := Option.some.inj hnm
    rw [hs]
    exact .mk hsign (natural?_iff.1 hn)
  · intro h
    obtain ⟨hsign, hdigits⟩ := h
    simp only [Numeral.integer?, splitSign_append hsign hdigits.plain, natural?_iff.2 hdigits]
    rfl

theorem literal?_iff : Numeral.literal? s = some i ↔ Literal s i := by
  simp [Numeral.literal?, Option.filter_eq_some_iff, integer?_iff, Literal, Numeral.isLiteral]

theorem power?_iff : Decimal.power? s = some e ↔ Power s e := by
  constructor
  · intro h
    cases s with
    | nil =>
      obtain rfl : 0 = e := by simpa [Decimal.power?] using h
      exact .absent
    | cons c s =>
      by_cases hc : c = 'e' ∨ c = 'E'
      · exact .mark hc (integer?_iff.1 (by simpa [Decimal.power?, hc] using h))
      · simp [Decimal.power?, hc] at h
  · intro h
    rcases h with _ | ⟨hmark, hs⟩
    · rfl
    · simp only [Decimal.power?, if_pos hmark, integer?_iff.2 hs]

def Ended (s : List Char) : Prop := ∀ c, s.head? = some c → c.isDigit = false

theorem splitDigits_append_ended (hdigits : ∀ c ∈ digits, c.isDigit) (hrest : Ended rest) :
    Decimal.splitDigits (digits ++ rest) = (digits, rest) := by
  have htake : rest.takeWhile Char.isDigit = [] := by
    cases rest with
    | nil => rfl
    | cons c rest => simp [hrest c rfl]
  have hdrop : rest.dropWhile Char.isDigit = rest := by
    cases rest with
    | nil => rfl
    | cons c rest => simp [hrest c rfl]
  rw [Decimal.splitDigits, List.takeWhile_append_of_pos hdigits,
    List.dropWhile_append_of_pos hdigits, htake, hdrop, List.append_nil]

theorem isDigit_of_mem_splitDigits {c : Char} (h : c ∈ (Decimal.splitDigits s).1) : c.isDigit := by
  have hall := List.all_takeWhile (p := Char.isDigit) (l := s)
  exact List.all_eq_true.1 hall c h

theorem Power.ended (h : Power s e) : Ended s := by
  cases h with
  | absent => simp [Ended]
  | mark hmark =>
    intro c hc
    obtain rfl := Option.some.inj hc
    rcases hmark with rfl | rfl <;> rfl

theorem Power.splitFraction {point fraction power : List Char} (hpower : Power power e)
    (hpoint : Fraction point fraction) :
    Decimal.splitFraction (point ++ power) = (fraction, power) := by
  cases hpoint with
  | point h => exact splitDigits_append_ended h hpower.ended
  | absent =>
    cases hpower with
    | absent => rfl
    | mark hmark => rcases hmark with rfl | rfl <;> rfl

theorem fraction_splitFraction (s : List Char) : ∃ point,
    Fraction point (Decimal.splitFraction s).1 ∧ s = point ++ (Decimal.splitFraction s).2 := by
  unfold Decimal.splitFraction
  split
  · next t =>
    refine ⟨_, .point fun c hc ↦ isDigit_of_mem_splitDigits hc, ?_⟩
    rw [List.cons_append, Decimal.splitDigits_append]
  · exact ⟨[], .absent, rfl⟩

theorem Power.ended_append {point fraction power : List Char} (hpower : Power power e)
    (hpoint : Fraction point fraction) : Ended (point ++ power) := by
  cases hpoint with
  | absent => exact hpower.ended
  | point =>
    intro c hc
    obtain rfl := Option.some.inj hc
    rfl

theorem decimalRead?_iff : Decimal.read? s = some d ↔ Unsigned s d := by
  constructor
  · intro h
    obtain ⟨point, hpoint, hrest⟩ := fraction_splitFraction (Decimal.splitDigits s).2
    have hs := Decimal.splitDigits_append s
    simp only [Decimal.read?] at h
    split at h
    · cases h
    · next hany =>
      obtain ⟨e, he, rfl⟩ := Option.map_eq_some_iff.1 h
      conv => arg 1; rw [← hs, hrest]
      refine .mk (fun c hc ↦ isDigit_of_mem_splitDigits hc) hpoint ?_ (power?_iff.1 he)
      simpa [List.append_eq_nil_iff] using hany
  · intro h
    obtain ⟨hwhole, hpoint, hany, hpower⟩ := h
    have hsplit := splitDigits_append_ended hwhole (hpower.ended_append hpoint)
    simp only [Decimal.read?, hsplit, hpower.splitFraction hpoint, power?_iff.2 hpower]
    rw [if_neg (by simpa using hany), Option.map_some]

end Phrasing.Grammar
