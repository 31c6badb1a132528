import Phrasing.Condition.Digest
import Phrasing.Proofs.Bits
import Phrasing.Numeral

/-!
Words as octets. Numbers have a fixed width, and a text ends with an octet that no text has, so that
octets tell the words of a sequence when the forms of the words are known.
-/

namespace Phrasing

/-- The lowest octets of a number, the very lowest first. -/
def littleEndian : Nat → Nat → List UInt8
  | 0, _ => []
  | width + 1, n => UInt8.ofNat n :: littleEndian width (n / 256)

theorem littleEndian_append_inj {width m n : Nat} {s t : List UInt8} (hm : m < twoPow (8 * width))
    (hn : n < twoPow (8 * width)) (h : littleEndian width m ++ s = littleEndian width n ++ t) :
    m = n ∧ s = t := by
  induction width generalizing m n with
  | zero => exact ⟨(Nat.lt_one_iff.1 hm).trans (Nat.lt_one_iff.1 hn).symm, h⟩
  | succ width ih =>
    have hwidth : twoPow (8 * (width + 1)) = twoPow (8 * width) * 256 := twoPow_add _ 8
    rw [hwidth] at hm hn
    obtain ⟨hlow, hhigh⟩ := List.cons.inj h
    have hlow : m % 256 = n % 256 := by simpa using congrArg UInt8.toNat hlow
    obtain ⟨hdiv, hst⟩ := ih (Nat.div_lt_of_lt_mul (by omega)) (Nat.div_lt_of_lt_mul (by omega)) hhigh
    exact ⟨by omega, hst⟩

-- no octet of UTF-8 has all its bits set
def textEnd : UInt8 := 255

theorem textEnd_ne_ofNat {n : Nat} (h : n < 255) : textEnd ≠ UInt8.ofNat n := by
  intro heq
  have heq := congrArg UInt8.toNat heq
  rw [UInt8.toNat_ofNat'] at heq
  change 255 = n % 256 at heq
  omega

theorem textEnd_not_mem_encode (c : Char) : textEnd ∉ String.utf8EncodeChar c := by
  have hnot (octets : List Nat) (h : ∀ n ∈ octets, n < 255) :
      textEnd ∉ octets.map UInt8.ofNat := by
    intro hmem
    obtain ⟨n, hn, heq⟩ := List.mem_map.1 hmem
    exact textEnd_ne_ofNat (h n hn) heq.symm
  generalize hv : c.val.toNat = v
  simp only [String.utf8EncodeChar, hv]
  split
  · exact hnot [_] (by simp; omega)
  · split
    · exact hnot [_, _] (by simp; omega)
    · split
      · exact hnot [_, _, _] (by simp; omega)
      · exact hnot [_, _, _, _] (by simp; omega)

theorem textEnd_not_mem (s : String) : textEnd ∉ s.toByteArray.data.toList := by
  rw [← String.utf8Encode_toList, List.utf8Encode, List.data_toByteArray]
  simp [textEnd_not_mem_encode]

theorem text_append_inj {s t : String} {as bs : List UInt8}
    (h : s.toByteArray.data.toList ++ textEnd :: as = t.toByteArray.data.toList ++ textEnd :: bs) :
    s = t ∧ as = bs := by
  have hsplit := congrArg (List.splitOn textEnd) h
  rw [List.splitOn_append_cons_self_of_not_mem (textEnd_not_mem s),
    List.splitOn_append_cons_self_of_not_mem (textEnd_not_mem t)] at hsplit
  have hbytes := (List.cons.inj hsplit).1
  rw [hbytes] at h
  have hst : s = t := String.toByteArray_inj.1 (ByteArray.ext (Array.toList_inj.1 hbytes))
  exact ⟨hst, (List.cons.inj (List.append_cancel_left h)).2⟩

namespace Word

/-- A word as octets: numbers in two's complement, doubles by their bits. -/
def octets : Word → List UInt8
  | count n | digest n => littleEndian 8 n
  | operator o => littleEndian 8 (Operator.all.idxOf o)
  | flag b => littleEndian 1 b.toNat
  | tag n => littleEndian 1 n
  | integer n => littleEndian 8 (n % Numeral.indexLimit).toNat
  | float x => littleEndian 8 x.bits
  | text s => s.toByteArray.data.toList ++ [textEnd]

/-- The number of a word fits into its octets. -/
def Fits : Word → Prop
  | count n | digest n => n < Numeral.indexLimit
  | tag n => n < 256
  | integer n => Numeral.isLiteral n = true
  | operator _ | flag _ | float _ | text _ => True

variable {u v : Word} {us vs : List Word} {s t : List UInt8}

theorem integer_inj_of_mod {m n : Int} (hm : Numeral.isLiteral m = true)
    (hn : Numeral.isLiteral n = true)
    (h : (m % Numeral.indexLimit).toNat = (n % Numeral.indexLimit).toNat) : m = n := by
  simp only [Numeral.isLiteral, Bool.and_eq_true, decide_eq_true_eq] at hm hn
  simp only [Numeral.indexLimit] at h
  omega

theorem octets_append_inj (hu : u.Fits) (hv : v.Fits) (hform : u.form = v.form)
    (h : u.octets ++ s = v.octets ++ t) : u = v ∧ s = t := by
  cases u with
  | count m =>
    cases v with
    | count n => exact (littleEndian_append_inj hu hv h).imp_left (congrArg count)
    | _ => cases hform
  | digest m =>
    cases v with
    | digest n => exact (littleEndian_append_inj hu hv h).imp_left (congrArg digest)
    | _ => cases hform
  | operator o =>
    cases v with
    | operator o' =>
      have hlt (o : Operator) : Operator.all.idxOf o < twoPow (8 * 8) := by cases o <;> decide
      obtain ⟨hidx, hst⟩ := littleEndian_append_inj (hlt o) (hlt o') h
      refine ⟨congrArg operator ?_, hst⟩
      cases o <;> cases o' <;> first | rfl | exact absurd hidx (by decide)
    | _ => cases hform
  | flag b =>
    cases v with
    | flag c =>
      have hlt (b : Bool) : b.toNat < twoPow (8 * 1) := by cases b <;> decide
      obtain ⟨hflag, hst⟩ := littleEndian_append_inj (hlt b) (hlt c) h
      refine ⟨congrArg flag ?_, hst⟩
      cases b <;> cases c <;> first | rfl | cases hflag
    | _ => cases hform
  | tag m =>
    cases v with
    | tag n => exact (littleEndian_append_inj hu hv h).imp_left (congrArg tag)
    | _ => cases hform
  | integer m =>
    cases v with
    | integer n =>
      have hlt (n : Int) : (n % Numeral.indexLimit).toNat < twoPow (8 * 8) := by
        change _ < 0x10000000000000000
        simp only [Numeral.indexLimit]
        omega
      obtain ⟨hmod, hst⟩ := littleEndian_append_inj (hlt m) (hlt n) h
      exact ⟨congrArg integer (integer_inj_of_mod hu hv hmod), hst⟩
    | _ => cases hform
  | float x =>
    cases v with
    | float y =>
      obtain ⟨hbits, hst⟩ := littleEndian_append_inj (Binary64.bits_lt x) (Binary64.bits_lt y) h
      exact ⟨congrArg float (Binary64.bits_inj hbits), hst⟩
    | _ => cases hform
  | text a =>
    cases v with
    | text b =>
      simp only [octets, List.append_assoc, List.singleton_append] at h
      exact (text_append_inj h).imp_left (congrArg text)
    | _ => cases hform

theorem flatMap_octets_append_inj (hu : ∀ u ∈ us, u.Fits) (hv : ∀ v ∈ vs, v.Fits)
    (hform : us.map form = vs.map form) (h : us.flatMap octets ++ s = vs.flatMap octets ++ t) :
    us = vs ∧ s = t := by
  induction us generalizing vs with
  | nil =>
    obtain rfl := List.map_eq_nil_iff.1 hform.symm
    exact ⟨rfl, h⟩
  | cons u us ih =>
    cases vs with
    | nil => cases hform
    | cons v vs =>
      obtain ⟨hfirst, hlater⟩ := List.cons.inj hform
      obtain ⟨hufits, hus⟩ := List.forall_mem_cons.1 hu
      obtain ⟨hvfits, hvs⟩ := List.forall_mem_cons.1 hv
      simp only [List.flatMap_cons, List.append_assoc] at h
      obtain ⟨rfl, hrest⟩ := octets_append_inj hufits hvfits hfirst h
      obtain ⟨rfl, hst⟩ := ih hus hvs hlater hrest
      exact ⟨rfl, hst⟩

end Word

end Phrasing
