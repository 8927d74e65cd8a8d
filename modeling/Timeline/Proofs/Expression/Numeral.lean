import Timeline.Expression.Resolution
import Timeline.Proofs.Expression.Legible
import Timeline.Proofs.Number.Nearest

/-! # Number literals

The decimal that a number literal writes, by the shape of the literal. It is the one that is read, and
the number nearest to it is the one that the literal stands for. -/
namespace Timeline

namespace Number.Decimal
open Text

/-- The digits of a significand make a coefficient, and those behind the point are its places. -/
inductive IsSignificandOf : Nat → Nat → List Char → Prop
  | whole {ds} (h : IsDigits ds) : IsSignificandOf (ofDigits ds) 0 ds
  | mixed {ds fs} (hds : IsDigits ds) (hfs : IsDigits fs) :
    IsSignificandOf (ofDigits (ds ++ fs)) fs.length (ds ++ '.' :: fs)
  | fraction {fs} (h : IsDigits fs) : IsSignificandOf (ofDigits fs) fs.length ('.' :: fs)

/-- A literal writes a decimal: its places count down the power of ten, to which an exponent with a
sign is added. -/
inductive WrittenAs : Decimal → List Char → Prop
  | plain {coefficient places : Nat} {s} (h : IsSignificandOf coefficient places s) :
    WrittenAs ⟨false, coefficient, -places⟩ s
  | raised {coefficient places : Nat} {s mark sign ds}
    (hs : IsSignificandOf coefficient places s) (hmark : mark ∈ ['e', 'E'])
    (hsign : sign ∈ [[], ['+']]) (hds : IsDigits ds) :
    WrittenAs ⟨false, coefficient, ofDigits ds - places⟩ (s ++ mark :: (sign ++ ds))
  | lowered {coefficient places : Nat} {s mark ds}
    (hs : IsSignificandOf coefficient places s) (hmark : mark ∈ ['e', 'E']) (hds : IsDigits ds) :
    WrittenAs ⟨false, coefficient, -(ofDigits ds : Int) - places⟩ (s ++ mark :: '-' :: ds)

variable {coefficient places : Nat} {literal s : List Char} {d : Decimal}

lemma exists_isSignificandOf (h : IsSignificand s) :
    ∃ coefficient places, IsSignificandOf coefficient places s := by
  cases h with
  | whole hds => exact ⟨_, _, .whole hds⟩
  | mixed hds hfs => exact ⟨_, _, .mixed hds hfs⟩
  | fraction hfs => exact ⟨_, _, .fraction hfs⟩

lemma exists_writtenAs (h : IsNumeral literal) : ∃ d, WrittenAs d literal := by
  cases h with
  | plain hs =>
    obtain ⟨coefficient, places, hs⟩ := exists_isSignificandOf hs
    exact ⟨_, .plain hs⟩
  | scaled hs hmark hsign hds =>
    obtain ⟨coefficient, places, hs⟩ := exists_isSignificandOf hs
    simp only [List.mem_cons, List.not_mem_nil, or_false] at hsign
    rcases hsign with rfl | rfl | rfl
    · exact ⟨_, .raised hs hmark (by simp) hds⟩
    · exact ⟨_, .raised hs hmark (by simp) hds⟩
    · exact ⟨_, .lowered hs hmark hds⟩

lemma IsSignificandOf.isSignificand (h : IsSignificandOf coefficient places s) :
    IsSignificand s := by
  cases h with
  | whole hds => exact .whole hds
  | mixed hds hfs => exact .mixed hds hfs
  | fraction hfs => exact .fraction hfs

lemma WrittenAs.isNumeral (h : WrittenAs d literal) : IsNumeral literal := by
  cases h with
  | plain hs => exact .plain hs.isSignificand
  | @raised _ _ _ _ sign _ hs hmark hsign hds =>
    have hsign : sign ∈ [[], ['+'], ['-']] := List.mem_append_left [['-']] hsign
    exact .scaled hs.isSignificand hmark hsign hds
  | @lowered _ _ _ _ ds hs hmark hds =>
    exact @IsNumeral.scaled _ _ ['-'] ds hs.isSignificand hmark (by simp) hds

lemma readExponent?_of_mark {mark : Char} {ds rest : List Char} {negative : Bool}
    (hmark : mark ∈ ['e', 'E']) (hds : IsDigits ds) (hsign : readSign rest = (negative, ds)) :
    readExponent? (mark :: rest) = some (if negative then -(ofDigits ds : Int) else ofDigits ds) := by
  have hmark : mark = 'e' ∨ mark = 'E' := by simpa using hmark
  have hrun : digits ds = (ds, []) := by
    have h := @digits_append_eq ds [] hds.2 nofun
    rwa [List.append_nil] at h
  have hne : ds ≠ [] := hds.1
  simp [readExponent?, hmark, hsign, hrun, hne]

lemma readSign_of_isDigits {ds : List Char} (h : IsDigits ds) : readSign ds = (false, ds) := by
  obtain ⟨d, ds, rfl⟩ := List.exists_cons_of_ne_nil h.1
  have hd : d ≠ '+' ∧ d ≠ '-' := by
    constructor <;> rintro rfl <;> exact absurd (h.2 _ List.mem_cons_self) (by decide)
  simp [readSign, hd]

/-- A significand is read with any exponent after it. -/
lemma read?_append {rest : List Char} (hs : IsSignificandOf coefficient places s) {exponent : Int}
    (hrest : readExponent? rest = some exponent)
    (hhead : ∀ c ∈ rest.head?, c.isDigit = false ∧ c ≠ '.') :
    read? (s ++ rest) = some ⟨false, coefficient, exponent - places⟩ := by
  have hdigit : ∀ c ∈ rest.head?, c.isDigit = false := fun c hc => (hhead c hc).1
  have hsign {c : Char} {cs : List Char} (hc : c.isDigit ∨ c = '.') :
      readSign (c :: cs) = (false, c :: cs) := by
    have hne : c ≠ '+' ∧ c ≠ '-' := by
      constructor <;> rintro rfl <;> simp at hc
    simp [readSign, hne]
  have hnone : readFraction rest = ([], rest) := by
    unfold readFraction
    split
    · exact absurd rfl (hhead '.' rfl).2
    · rfl
  cases hs with
  | whole hds =>
    obtain ⟨d, ds, rfl⟩ := List.exists_cons_of_ne_nil hds.1
    have hrun := digits_append_eq hds.2 hdigit
    have hfirst : d.isDigit := hds.2 d (by simp)
    simp only [List.cons_append] at hrun ⊢
    simp [read?, hsign (.inl hfirst), hrun, hnone, hrest]
  | @mixed ds fs hds hfs =>
    obtain ⟨d, ds, rfl⟩ := List.exists_cons_of_ne_nil hds.1
    have hrun := @digits_append_eq (d :: ds) ('.' :: (fs ++ rest)) hds.2 (by simp)
    have hfirst : d.isDigit := hds.2 d (by simp)
    simp only [List.cons_append, List.append_assoc] at hrun ⊢
    simp [read?, hsign (.inl hfirst), hrun, readFraction, digits_append_eq hfs.2 hdigit, hrest]
  | @fraction fs hfs =>
    have hrun : digits ('.' :: (fs ++ rest)) = ([], '.' :: (fs ++ rest)) := by simp [digits]
    obtain ⟨f, fs, rfl⟩ := List.exists_cons_of_ne_nil hfs.1
    have hfraction := digits_append_eq hfs.2 hdigit
    simp only [List.cons_append] at hrun hfraction ⊢
    simp [read?, hsign (.inr rfl), hrun, readFraction, hfraction, hrest]

lemma read?_append_mark {mark : Char} {ds rest : List Char} {negative : Bool}
    (hs : IsSignificandOf coefficient places s) (hmark : mark ∈ ['e', 'E']) (hds : IsDigits ds)
    (hsign : readSign rest = (negative, ds)) : read? (s ++ mark :: rest) =
      some ⟨false, coefficient, (if negative then -(ofDigits ds : Int) else ofDigits ds) - places⟩ := by
  refine read?_append hs (readExponent?_of_mark hmark hds hsign) ?_
  simp only [List.mem_cons, List.not_mem_nil, or_false] at hmark
  rintro c ⟨⟩
  rcases hmark with rfl | rfl <;> decide

/-- A literal is read as the decimal that it writes. -/
theorem WrittenAs.read?_eq (h : WrittenAs d literal) : read? literal = some d := by
  cases h with
  | plain hs =>
    have h := @read?_append _ _ literal [] hs 0 rfl nofun
    rwa [List.append_nil, Int.zero_sub] at h
  | @raised _ _ _ _ sign ds hs hmark hsign hds =>
    have hplus : readSign ('+' :: ds) = (false, ds) := rfl
    simp only [List.mem_cons, List.not_mem_nil, or_false] at hsign
    rcases hsign with rfl | rfl
    · exact read?_append_mark hs hmark hds (readSign_of_isDigits hds)
    · exact read?_append_mark hs hmark hds hplus
  | @lowered _ _ _ _ ds hs hmark hds =>
    have hminus : readSign ('-' :: ds) = (true, ds) := rfl
    exact read?_append_mark hs hmark hds hminus

/-- Every number literal is a decimal. -/
theorem exists_read?_of_isNumeral (h : IsNumeral literal) : ∃ d, read? literal = some d := by
  obtain ⟨d, hd⟩ := exists_writtenAs h
  exact ⟨d, hd.read?_eq⟩

lemma WrittenAs.negative_eq (h : WrittenAs d literal) : d.negative = false := by
  cases h <;> rfl

end Number.Decimal

namespace Number
open Decimal

/-- A literal stands for the number nearest to the decimal that it writes. -/
def Denotes (literal : List Char) (x : Float) : Prop :=
  ∃ d, WrittenAs d literal ∧ IsNearest d.value x

variable {literal : List Char} {x : Float}

lemma Denotes.isNumeral (h : Denotes literal x) : IsNumeral literal := by
  obtain ⟨d, hd, -⟩ := h
  exact hd.isNumeral

lemma Decimal.WrittenAs.denotes {d : Decimal} (h : WrittenAs d literal) :
    Denotes literal d.toFloat :=
  ⟨d, h, isNearest_toFloat h.negative_eq⟩

lemma Denotes.eq_numberOf (h : Denotes literal x) : x = numberOf literal := by
  obtain ⟨d, hd, hx⟩ := h
  rw [numberOf, hd.read?_eq]
  exact hx.unique (isNearest_toFloat hd.negative_eq)

/-- A number literal stands for one number. -/
theorem existsUnique_denotes (h : IsNumeral literal) : ∃! x, Denotes literal x := by
  obtain ⟨d, hd⟩ := exists_writtenAs h
  exact ⟨_, hd.denotes, fun x hx => hx.eq_numberOf.trans hd.denotes.eq_numberOf.symm⟩

end Number

end Timeline
