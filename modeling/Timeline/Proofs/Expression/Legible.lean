import Mathlib.Tactic.Common
import Timeline.Expression.Token
import Timeline.Proofs.Text.Runs

/-! # Legible tokens

Which texts are number literals, names and quoted texts, and that a token is read back from its
spelling if it ends before what follows. -/
namespace Timeline
open Text

lemma Text.after?_eq_none {c : Char} {start rest : List Char} (h : ∀ d ∈ rest.head?, d ≠ c) :
    after? (c :: start) rest = none := by
  cases rest with
  | nil => rfl
  | cons d rest => simp [after?, (h d rfl).symm]

def IsDigits (cs : List Char) : Prop := cs ≠ [] ∧ ∀ c ∈ cs, c.isDigit

inductive IsSignificand : List Char → Prop
  | whole {ds} (h : IsDigits ds) : IsSignificand ds
  | mixed {ds fs} (hds : IsDigits ds) (hfs : IsDigits fs) : IsSignificand (ds ++ '.' :: fs)
  | fraction {fs} (h : IsDigits fs) : IsSignificand ('.' :: fs)

inductive IsNumeral : List Char → Prop
  | plain {s} (h : IsSignificand s) : IsNumeral s
  | scaled {s mark sign ds} (hs : IsSignificand s) (hmark : mark ∈ ['e', 'E'])
    (hsign : sign ∈ [[], ['+'], ['-']]) (hds : IsDigits ds) : IsNumeral (s ++ mark :: (sign ++ ds))

def IsIdentifier (cs : List Char) : Prop :=
  ∃ c rest, cs = c :: rest ∧ Token.isNameStart c ∧ ∀ d ∈ rest, Token.isNamePart d

def escape (quote : Char) (cs : List Char) : List Char :=
  cs.flatMap fun c => if c = quote ∨ c = '\\' then ['\\', c] else [c]

lemma escape_cons (quote c : Char) (cs : List Char) : escape quote (c :: cs) =
    (if c = quote ∨ c = '\\' then ['\\', c] else [c]) ++ escape quote cs := rfl

namespace Token

/-- Does a token start an operand? -/
def isInitial : Token → Bool
  | number _ | text .. | name _ => true
  | symbol .openParen | symbol .bang | symbol (.operator (.binary .add))
  | symbol (.operator (.binary .subtract)) => true
  | _ => false

end Token

namespace Symbol

/-- The character with which a symbol would become another one. -/
def extension? : Symbol → Option Char
  | question => some '?'
  | bang | operator (.binary .equal) | operator (.binary .notEqual)
  | operator (.binary .less) | operator (.binary .greater) => some '='
  | _ => none

def Stops (s : Symbol) (rest : List Char) : Prop :=
  (∀ c ∈ s.extension?, ∀ d ∈ rest.head?, d ≠ c) ∧ (s = dot → ∀ d ∈ rest.head?, d.isDigit = false)

lemma read?_append_eq {s : Symbol} {rest : List Char} (h : s.Stops rest) :
    read? (s.spelling ++ rest) = some (s, rest) := by
  have hnone {c : Char} (hc : c ∈ s.extension?) (start : List Char) :
      after? (c :: start) rest = none := after?_eq_none (h.1 c hc)
  clear h
  rcases s with _ | _ | _ | _ | _ | _ | _ | _ | _ | _ | ⟨⟨⟨⟩⟩ | ⟨⟨⟩⟩⟩ <;>
    first
    | rfl
    | simp [read?, all, List.findSome?, spelling, after?, hnone rfl]

/-- No symbol starts like another kind of token, and none that starts an operand continues another
symbol. -/
lemma exists_spelling_eq (s : Symbol) : ∃ c cs, s.spelling = c :: cs ∧ c.isDigit = false ∧
    Token.isNamePart c = false ∧ c ≠ '"' ∧ c ≠ '\'' ∧ Token.isSpace c = false ∧
    (c = '.' → s = dot) ∧ ((Token.symbol s).isInitial → c ≠ '=' ∧ c ≠ '?') := by
  rcases s with _ | _ | _ | _ | _ | _ | _ | _ | _ | _ | ⟨⟨⟨⟩⟩ | ⟨⟨⟩⟩⟩ <;>
    exact ⟨_, _, rfl, by decide⟩

end Symbol

namespace Token

def Legible : Token → Prop
  | number literal => IsNumeral literal
  | text quote body => quote ∈ ['"', '\''] ∧ ∃ cs, body = escape quote cs
  | name letters => IsIdentifier letters
  | symbol _ => True

def NumberStops (rest : List Char) : Prop :=
  (∀ c ∈ rest.head?, c.isDigit = false) ∧ fraction? rest = none ∧ exponent? rest = none

lemma fraction?_eq_none {cs : List Char} (h : ∀ c ∈ cs.head?, c ≠ '.') : fraction? cs = none := by
  unfold fraction?
  split
  · exact absurd rfl (h '.' rfl)
  · rfl

lemma exponent?_eq_none {cs : List Char} (h : ∀ c ∈ cs.head?, c ≠ 'e' ∧ c ≠ 'E') :
    exponent? cs = none := by
  cases cs with
  | nil => rfl
  | cons c cs => simp [exponent?, h c rfl]

lemma optional_of_eq_some {part? : List Char → Option (List Char × List Char)}
    {cs part rest : List Char} (h : part? cs = some (part, rest)) :
    optional part? cs = (part, rest) := by
  rw [optional, h]
  rfl

lemma optional_of_eq_none {part? : List Char → Option (List Char × List Char)} {cs : List Char}
    (h : part? cs = none) : optional part? cs = ([], cs) := by
  rw [optional, h]
  rfl

lemma fraction?_append_eq {fs rest : List Char} (hfs : IsDigits fs)
    (hrest : ∀ c ∈ rest.head?, c.isDigit = false) :
    fraction? ('.' :: (fs ++ rest)) = some ('.' :: fs, rest) := by
  obtain ⟨hne, hdigits⟩ := hfs
  obtain ⟨d, ds, rfl⟩ := List.exists_cons_of_ne_nil hne
  rw [fraction?, digits_append_eq hdigits hrest]

lemma exponent?_append_eq {mark : Char} {s ds rest : List Char} (hmark : mark ∈ ['e', 'E'])
    (hs : s ∈ [[], ['+'], ['-']]) (hds : IsDigits ds)
    (hrest : ∀ c ∈ rest.head?, c.isDigit = false) :
    exponent? (mark :: (s ++ (ds ++ rest))) = some (mark :: (s ++ ds), rest) := by
  obtain ⟨hne, hdigits⟩ := hds
  obtain ⟨d, ds, rfl⟩ := List.exists_cons_of_ne_nil hne
  have hfirst : d.isDigit := hdigits d (by simp)
  have hd : d ≠ '+' ∧ d ≠ '-' := by
    constructor <;> rintro rfl <;> exact absurd hfirst (by decide)
  have hsign : sign (s ++ (d :: ds ++ rest)) = (s, d :: ds ++ rest) := by
    simp only [List.mem_cons, List.not_mem_nil, or_false] at hs
    rcases hs with rfl | rfl | rfl
    · simp [sign, hd]
    · rfl
    · rfl
  have hmark : mark = 'e' ∨ mark = 'E' := by simpa using hmark
  rw [exponent?, if_pos hmark, hsign, digits_append_eq hdigits hrest]
  rfl

lemma significand?_append_eq {s rest : List Char} (hs : IsSignificand s)
    (hdigit : ∀ c ∈ rest.head?, c.isDigit = false) (hfraction : fraction? rest = none) :
    significand? (s ++ rest) = some (s, rest) := by
  cases hs with
  | whole h =>
    obtain ⟨d, ds, rfl⟩ := List.exists_cons_of_ne_nil h.1
    rw [significand?, digits_append_eq h.2 hdigit]
    simp [optional_of_eq_none hfraction]
  | @mixed ds fs hds hfs =>
    obtain ⟨d, ds, rfl⟩ := List.exists_cons_of_ne_nil hds.1
    rw [significand?, List.append_assoc, digits_append_eq hds.2 (by simp)]
    simp [optional_of_eq_some (fraction?_append_eq hfs hdigit)]
  | @fraction fs h =>
    have hnone : digits ('.' :: (fs ++ rest)) = ([], '.' :: (fs ++ rest)) := by simp [digits]
    rw [List.cons_append, significand?, hnone]
    exact fraction?_append_eq h hdigit

lemma readNumber?_append_eq {literal rest : List Char} (h : IsNumeral literal)
    (hrest : NumberStops rest) : readNumber? (literal ++ rest) = some (literal, rest) := by
  obtain ⟨hdigit, hfraction, hexponent⟩ := hrest
  cases h with
  | plain hs =>
    rw [readNumber?, significand?_append_eq hs hdigit hfraction]
    simp [optional_of_eq_none hexponent]
  | @scaled s mark sign ds hs hmark hsign hds =>
    have hmark' : mark.isDigit = false ∧ mark ≠ '.' := by
      simp only [List.mem_cons, List.not_mem_nil, or_false] at hmark
      rcases hmark with rfl | rfl <;> decide
    rw [readNumber?, List.append_assoc, List.cons_append, List.append_assoc,
      significand?_append_eq hs (by simpa using hmark'.1)
        (fraction?_eq_none (by simpa using hmark'.2))]
    simp [optional_of_eq_some (exponent?_append_eq hmark hsign hds hdigit)]

lemma readNumber?_eq_none {cs : List Char} (h : ∀ c ∈ cs.head?, c.isDigit = false)
    (hfraction : fraction? cs = none) : readNumber? cs = none := by
  simp [readNumber?, significand?, digits_eq_nil h, hfraction]

lemma readBody?_quote {quote : Char} (hquote : quote ≠ '\\') (rest : List Char) :
    readBody? quote (quote :: rest) = some ([], rest) := by
  cases rest <;> simp [readBody?, hquote]

lemma readBody?_plain {quote c : Char} (hquote : c ≠ quote) (hc : c ≠ '\\') (rest : List Char) :
    readBody? quote (c :: rest) =
      (readBody? quote rest).map fun (body, rest) => (c :: body, rest) := by
  cases rest <;> simp [readBody?, hquote, hc]

lemma readBody?_append_eq {quote : Char} (hquote : quote ≠ '\\') (cs rest : List Char) :
    readBody? quote (escape quote cs ++ quote :: rest) = some (escape quote cs, rest) := by
  induction cs with
  | nil => exact readBody?_quote hquote rest
  | cons c cs ih =>
    rw [escape_cons]
    split_ifs with hc
    · simp [readBody?, ih]
    · obtain ⟨hne, hslash⟩ := not_or.1 hc
      simp [readBody?_plain hne hslash, ih]

lemma isDigit_of_isNameStart {c : Char} (h : isNameStart c) : c.isDigit = false := by
  simp only [isNameStart, Bool.or_eq_true, beq_iff_eq] at h
  rcases h with (h | rfl) | rfl
  · have hbounds : (decide (c.val ≥ 65 ∧ c.val ≤ 90) ||
        (decide (c.val ≥ 97) && decide (c.val ≤ 122))) = true := h
    simp only [Bool.or_eq_true, Bool.and_eq_true, decide_eq_true_eq, ge_iff_le,
      UInt32.le_iff_toNat_le, Char.toNat_val, UInt32.reduceToNat] at hbounds
    rw [Bool.eq_false_iff, ne_eq, Char.isDigit_iff_toNat]
    simp only [Char.reduceToNat]
    omega
  · decide
  · decide

lemma ne_of_isNameStart {c d : Char} (h : isNameStart c) (hd : isNameStart d = false) : c ≠ d := by
  rintro rfl
  rw [h] at hd
  cases hd

lemma isNameStart_of_isNamePart {c : Char} (h : isNamePart c = false) : isNameStart c = false := by
  simp only [isNamePart, isNameStart, Char.isAlphanum, Bool.or_eq_false_iff] at h ⊢
  exact ⟨⟨h.1.1.1, h.1.2⟩, h.2⟩

def Stops (t : Token) (rest : List Char) : Prop :=
  match t with
  | number _ => NumberStops rest
  | text .. => True
  | name _ => ∀ c ∈ rest.head?, isNamePart c = false
  | symbol s => s.Stops rest

theorem read?_append_eq {t : Token} {rest : List Char} (ht : t.Legible) (h : t.Stops rest) :
    read? (t.spelling ++ rest) = some (t, rest) := by
  cases t with
  | number literal => simp [read?, spelling, readNumber?_append_eq ht h]
  | text quote body =>
    obtain ⟨hquote, cs, rfl⟩ := ht
    have hquote : quote = '"' ∨ quote = '\'' := by simpa using hquote
    have hnumber : readNumber? (quote :: (escape quote cs ++ quote :: rest)) = none := by
      rcases hquote with rfl | rfl <;>
        exact readNumber?_eq_none (by simp) (fraction?_eq_none (by simp))
    have hne : quote ≠ '\\' := by rcases hquote with rfl | rfl <;> decide
    have hbody := readBody?_append_eq hne cs rest
    simp [read?, spelling, hnumber, hquote, hbody]
  | name letters =>
    obtain ⟨c, cs, rfl, hc, hcs⟩ := ht
    have hdigit := isDigit_of_isNameStart hc
    have hdot : c ≠ '.' := ne_of_isNameStart hc (by decide)
    have hdouble : c ≠ '"' := ne_of_isNameStart hc (by decide)
    have hsingle : c ≠ '\'' := ne_of_isNameStart hc (by decide)
    have hnumber : readNumber? (c :: (cs ++ rest)) = none :=
      readNumber?_eq_none (by simpa using hdigit) (fraction?_eq_none (by simpa using hdot))
    have htake : (cs ++ rest).takeWhile isNamePart = cs := by
      rw [List.takeWhile_append_of_pos hcs]
      cases rest with
      | nil => simp
      | cons d rest => simp [h d rfl]
    have hdrop : (cs ++ rest).dropWhile isNamePart = rest := by
      rw [List.dropWhile_append_of_pos hcs]
      cases rest with
      | nil => simp
      | cons d rest => simp [h d rfl]
    simp [read?, spelling, hnumber, hdouble, hsingle, hc, htake, hdrop]
  | symbol s =>
    obtain ⟨c, cs, hs, hdigit, hname, hdouble, hsingle, -, hdot, -⟩ := s.exists_spelling_eq
    have hread := Symbol.read?_append_eq h
    -- numbers are tried before symbols, and a point is one only if no digit follows it
    have hfraction : fraction? (s.spelling ++ rest) = none := by
      by_cases hc : c = '.'
      · have hdigits : digits rest = ([], rest) := digits_eq_nil (h.2 (hdot hc))
        rw [hdot hc]
        simp [Symbol.spelling, fraction?, hdigits]
      · exact fraction?_eq_none (by simpa [hs] using hc)
    have hnumber : readNumber? (s.spelling ++ rest) = none :=
      readNumber?_eq_none (by simpa [hs] using hdigit) hfraction
    have hstart := isNameStart_of_isNamePart hname
    rw [hs] at hnumber hread
    simp only [List.cons_append] at hnumber hread
    simp [read?, spelling, hs, hnumber, hdouble, hsingle, hstart, hread]

lemma eq_of_isSpace {c : Char} (h : isSpace c) : c = ' ' ∨ c = '\t' ∨ c = '\r' ∨ c = '\n' := by
  simpa [isSpace, or_assoc] using h

lemma exists_eq_cons_of_isNumeral {literal : List Char} (h : IsNumeral literal) :
    ∃ c cs, literal = c :: cs ∧ (c.isDigit ∨ c = '.') := by
  have hsignificand {s : List Char} (h : IsSignificand s) :
      ∃ c cs, s = c :: cs ∧ (c.isDigit ∨ c = '.') := by
    cases h with
    | whole h | mixed h =>
      obtain ⟨d, ds, rfl⟩ := List.exists_cons_of_ne_nil h.1
      exact ⟨d, _, rfl, .inl (h.2 d (by simp))⟩
    | fraction => exact ⟨_, _, rfl, .inr rfl⟩
  cases h with
  | plain hs => exact hsignificand hs
  | scaled hs =>
    obtain ⟨c, cs, rfl, hc⟩ := hsignificand hs
    exact ⟨c, _, rfl, hc⟩

lemma Legible.exists_spelling_eq {t : Token} (h : t.Legible) : ∃ c cs, t.spelling = c :: cs ∧
    isSpace c = false ∧ (t.isInitial → c ≠ '=' ∧ c ≠ '?') := by
  cases t with
  | number literal =>
    obtain ⟨c, cs, rfl, hc⟩ := exists_eq_cons_of_isNumeral h
    have hne (d : Char) (hd : d.isDigit = false) (hdot : d ≠ '.') : c ≠ d := by
      rintro rfl
      simp [hd, hdot] at hc
    refine ⟨c, cs, rfl, ?_, fun _ => ⟨hne _ (by decide) (by decide), hne _ (by decide) (by decide)⟩⟩
    simp [isSpace, hne ' ' (by decide) (by decide), hne '\t' (by decide) (by decide),
      hne '\r' (by decide) (by decide), hne '\n' (by decide) (by decide)]
  | text quote body =>
    obtain ⟨hquote, -⟩ := h
    have hquote : quote = '"' ∨ quote = '\'' := by simpa using hquote
    rcases hquote with rfl | rfl
    · exact ⟨_, _, rfl, by decide, fun _ => by decide⟩
    · exact ⟨_, _, rfl, by decide, fun _ => by decide⟩
  | name letters =>
    obtain ⟨c, cs, rfl, hc, -⟩ := h
    have hne (d : Char) (hd : isNameStart d = false) : c ≠ d := ne_of_isNameStart hc hd
    refine ⟨c, cs, rfl, ?_, fun _ => ⟨hne _ (by decide), hne _ (by decide)⟩⟩
    simp [isSpace, hne ' ' (by decide), hne '\t' (by decide), hne '\r' (by decide),
      hne '\n' (by decide)]
  | symbol s =>
    obtain ⟨c, cs, hs, -, -, -, -, hspace, -, hinitial⟩ := s.exists_spelling_eq
    exact ⟨c, cs, hs, hspace, hinitial⟩

end Token

end Timeline
