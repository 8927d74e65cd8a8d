import Mathlib.Algebra.Group.Nat.Defs
import Mathlib.Data.List.Basic
import Timeline.Calendar.Reader
import Timeline.Calendar.Written
import Timeline.Proofs.Text.Runs

/-! # Numbers written to a width

A natural is written with zeros before its digits up to a width. Each of the number readers takes
back what is written to its width, whatever follows if it takes no more digits than these, and up to
the next character that is no digit if it takes all. -/
namespace Timeline
open Text

variable {width n : Nat} {c : Char} {rest : List Char}

lemma isDigit_of_mem_padded (hc : c ∈ padded width n) : c.isDigit = true := by
  rw [padded, List.mem_append] at hc
  rcases hc with hc | hc
  · rw [(List.mem_replicate.1 hc).2]
    rfl
  · exact Nat.isDigit_of_mem_toDigits (by decide) (by decide) hc

lemma padded_ne_nil : padded width n ≠ [] := by
  simp [padded]

lemma length_padded (hwidth : 0 < width) (h : n < 10 ^ width) :
    (padded width n).length = width := by
  have hle := (Nat.length_toDigits_le_iff (by decide) hwidth).2 h
  rw [padded, List.length_append, List.length_replicate]
  omega

lemma ofDigits_padded : ofDigits (padded width n) = n := by
  have hzeros (k : Nat) : ofDigits (List.replicate k '0') = 0 := by
    induction k with
    | zero => rfl
    | succ k ih => exact ih
  rw [ofDigits, padded, List.foldl_append, ← ofDigits, hzeros]
  exact Nat.ofDigitChars_ten_toDigits

/-- A digit is neither a sign nor a mark nor blank. -/
lemma isBlank_of_isDigit (hc : c.isDigit = true) : isBlank c = false := by
  have hbounds : 48 ≤ c.toNat ∧ c.toNat ≤ 57 := by
    simpa [Char.isDigit, UInt32.le_iff_toNat_le] using hc
  exact isBlank_eq_false (by omega) (by omega)

lemma isSolid_padded : IsSolid (padded width n) :=
  ⟨padded_ne_nil, fun _ hc => isBlank_of_isDigit (isDigit_of_mem_padded hc)⟩

lemma digits_padded_append (hrest : ∀ c ∈ rest.head?, c.isDigit = false) :
    digits (padded width n ++ rest) = (padded width n, rest) :=
  digits_append_eq (fun _ => isDigit_of_mem_padded) hrest

namespace Calendar

lemma numberUpTo?_padded (hwidth : 0 < width) (h : n < 10 ^ width) :
    numberUpTo? width (padded width n ++ rest) = some (n, rest) := by
  have htake : (padded width n ++ rest).take width = padded width n ++ [] := by
    rw [List.take_left' (length_padded hwidth h), List.append_nil]
  rw [numberUpTo?, htake, digits_padded_append (by simp)]
  simp [padded_ne_nil, ofDigits_padded]

lemma numberOf?_padded (hwidth : 0 < width) (h : n < 10 ^ width) :
    numberOf? width (padded width n ++ rest) = some (n, rest) := by
  have htake : (padded width n ++ rest).take width = padded width n ++ [] := by
    rw [List.take_left' (length_padded hwidth h), List.append_nil]
  have hdrop : (padded width n ++ rest).drop width = rest :=
    List.drop_left' (length_padded hwidth h)
  rw [numberOf?, htake, hdrop, digits_padded_append (by simp)]
  simp [length_padded hwidth h, ofDigits_padded]

lemma number?_padded (hrest : ∀ c ∈ rest.head?, c.isDigit = false) :
    number? (padded width n ++ rest) = some (n, rest) := by
  unfold number?
  rw [digits_padded_append hrest]
  split
  · next h => exact absurd (congrArg Prod.fst h) padded_ne_nil
  · next h =>
    obtain ⟨rfl, rfl⟩ := Prod.mk.inj h
    rw [ofDigits_padded]

/-- The part of a second with a number of digits, nothing if there are none. -/
def fractionOf (places nano : Nat) : List Char :=
  if places = 0 then [] else '.' :: padded places (nano / 10 ^ (9 - places))

lemma nanosOf_padded {places q : Nat} (hpos : 0 < places) (hplaces : places ≤ 9)
    (hq : q < 10 ^ places) : nanosOf (padded places q) = q * 10 ^ (9 - places) := by
  have hlength := length_padded hpos hq
  rw [nanosOf, List.take_of_length_le (by omega), hlength, ofDigits_padded]
  rfl

/-- Digits that are exact give back the part of a second. -/
lemma fraction?_fractionOf {places nano : Nat} (hplaces : places ≤ 9)
    (hnano : nano < nanosPerSecond) (hexact : 10 ^ (9 - places) ∣ nano)
    (hrest : ∀ c ∈ rest.head?, c.isDigit = false ∧ c ≠ '.') :
    fraction? (fractionOf places nano ++ rest) = some (nano, rest) := by
  rcases Nat.eq_zero_or_pos places with rfl | hpos
  · obtain rfl : nano = 0 := Nat.eq_zero_of_dvd_of_lt hexact hnano
    rw [fractionOf, if_pos rfl, List.nil_append]
    cases rest with
    | nil => rfl
    | cons c rest => simp [fraction?, (hrest c rfl).2]
  · have hpower : nano < 10 ^ places * 10 ^ (9 - places) := by
      rw [← Nat.pow_add, Nat.add_sub_cancel' hplaces]
      exact hnano
    have hq : nano / 10 ^ (9 - places) < 10 ^ places := by
      rwa [Nat.div_lt_iff_lt_mul (Nat.pow_pos (by decide))]
    rw [fractionOf, if_neg (by omega), List.cons_append, fraction?,
      digits_padded_append fun c hc => (hrest c hc).1]
    split
    · next h => exact absurd (congrArg Prod.fst h) padded_ne_nil
    · next h =>
      obtain ⟨rfl, rfl⟩ := Prod.mk.inj h
      rw [nanosOf_padded hpos hplaces hq, Nat.div_mul_cancel hexact]

lemma isBlank_of_mem_fractionOf {places nano : Nat} (hc : c ∈ fractionOf places nano) :
    isBlank c = false := by
  unfold fractionOf at hc
  split at hc
  · cases hc
  · exact (isSolid_padded.cons (by decide)).2 c hc

/-- What is written of a part of a second is exact. -/
lemma exists_writtenFraction_eq (nano : Nat) :
    ∃ places ≤ 9, 10 ^ (9 - places) ∣ nano ∧
      TimeOfDay.writtenFraction nano = fractionOf places nano := by
  unfold TimeOfDay.writtenFraction
  split_ifs with hzero hmilli hmicro
  · exact ⟨0, by decide, by simp [hzero], rfl⟩
  · exact ⟨3, by decide, Nat.dvd_of_mod_eq_zero hmilli, rfl⟩
  · exact ⟨6, by decide, Nat.dvd_of_mod_eq_zero hmicro, rfl⟩
  · exact ⟨9, by decide, by simp, by simp [fractionOf]⟩

end Calendar

end Timeline
