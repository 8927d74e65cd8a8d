import Timeline.Proofs.Expression.Legible

/-! # The layout of tokens

What is read off a text as a token is a numeral, a name, a quoted text or a symbol, and each token
stands at the bytes that it is given, in the order of the text and with nothing but spaces between
them. -/
namespace Timeline
open Text

/-- What may stand between two quotes: a backslash takes the next character with it. -/
inductive IsQuoted (quote : Char) : List Char → Prop
  | nil : IsQuoted quote []
  | plain {c cs} (hquote : c ≠ quote) (hslash : c ≠ '\\') (h : IsQuoted quote cs) :
    IsQuoted quote (c :: cs)
  | escaped {c cs} (h : IsQuoted quote cs) : IsQuoted quote ('\\' :: c :: cs)

lemma Text.isDigits_of_digits {cs ds rest : List Char} (h : digits cs = (ds, rest))
    (hne : ds ≠ []) : IsDigits ds := by
  obtain ⟨rfl, rfl⟩ := Prod.mk.inj h
  exact ⟨hne, fun c hc => List.all_eq_true.1 List.all_takeWhile c hc⟩

namespace Token

def Formed : Token → Prop
  | number literal => IsNumeral literal
  | text quote body => quote ∈ ['"', '\''] ∧ IsQuoted quote body
  | name letters => IsIdentifier letters
  | symbol _ => True

lemma isDigits_of_fraction? {cs ds rest : List Char} (h : fraction? cs = some (ds, rest)) :
    ∃ fs, ds = '.' :: fs ∧ IsDigits fs := by
  unfold fraction? at h
  split at h
  · split at h
    · cases h
    · next fs _ hne hd =>
      cases h
      exact ⟨fs, rfl, isDigits_of_digits hd hne⟩
  · cases h

lemma isSignificand_of_significand? {cs s rest : List Char} (h : significand? cs = some (s, rest)) :
    IsSignificand s := by
  unfold significand? at h
  split at h
  · obtain ⟨fs, rfl, hfs⟩ := isDigits_of_fraction? h
    exact .fraction hfs
  · next ds rest' hne hd =>
    have hds : IsDigits ds := isDigits_of_digits hd hne
    cases h
    cases hfraction : fraction? rest' with
    | none =>
      rw [optional_of_eq_none hfraction, List.append_nil]
      exact .whole hds
    | some part =>
      obtain ⟨fs, hpart, hfs⟩ := isDigits_of_fraction? hfraction
      rw [optional_of_eq_some hfraction, hpart]
      exact .mixed hds hfs

lemma sign_mem (cs : List Char) : (sign cs).1 ∈ [[], ['+'], ['-']] := by
  unfold sign
  split <;> simp

lemma exists_of_exponent? {cs part rest : List Char} (h : exponent? cs = some (part, rest)) :
    ∃ mark sign ds, part = mark :: (sign ++ ds) ∧ mark ∈ ['e', 'E'] ∧
      sign ∈ [[], ['+'], ['-']] ∧ IsDigits ds := by
  unfold exponent? at h
  split at h
  · cases h
  · next mark cs =>
    split_ifs at h with hmark
    split at h
    · cases h
    · next ds _ hne hd =>
      cases h
      exact ⟨mark, _, ds, rfl, by simpa using hmark, sign_mem cs,
        isDigits_of_digits hd hne⟩

lemma isNumeral_of_readNumber? {cs literal rest : List Char}
    (h : readNumber? cs = some (literal, rest)) : IsNumeral literal := by
  obtain ⟨⟨s, rest'⟩, hs, he⟩ := Option.map_eq_some_iff.1 h
  obtain ⟨rfl, rfl⟩ := Prod.mk.inj he
  have hs : IsSignificand s := isSignificand_of_significand? hs
  cases hexponent : exponent? rest' with
  | none =>
    rw [optional_of_eq_none hexponent, List.append_nil]
    exact .plain hs
  | some part =>
    obtain ⟨mark, sign, ds, hpart, hmark, hsign, hds⟩ := exists_of_exponent? hexponent
    rw [optional_of_eq_some hexponent, hpart]
    exact .scaled hs hmark hsign hds

lemma isQuoted_of_readBody? {quote : Char} {cs body rest : List Char}
    (h : readBody? quote cs = some (body, rest)) : IsQuoted quote body := by
  fun_induction readBody? quote cs generalizing body rest with
  | case1 => cases h
  | case2 c cs ih =>
    obtain ⟨⟨b, r⟩, hb, he⟩ := Option.map_eq_some_iff.1 h
    obtain ⟨rfl, rfl⟩ := Prod.mk.inj he
    exact .escaped (ih hb)
  | case3 =>
    cases h
    exact .nil
  | case4 => cases h
  | case5 c cs _ hquote hslash ih =>
    obtain ⟨⟨b, r⟩, hb, he⟩ := Option.map_eq_some_iff.1 h
    obtain ⟨rfl, rfl⟩ := Prod.mk.inj he
    exact .plain hquote hslash (ih hb)

theorem formed_of_read? {cs rest : List Char} {t : Token} (h : read? cs = some (t, rest)) :
    t.Formed := by
  unfold read? at h
  split at h
  · next hnumber =>
    cases h
    exact isNumeral_of_readNumber? hnumber
  · split at h
    · cases h
    · next c cs _ =>
      split_ifs at h with hquote hname
      · obtain ⟨⟨b, r⟩, hb, he⟩ := Option.map_eq_some_iff.1 h
        obtain ⟨rfl, rfl⟩ := Prod.mk.inj he
        exact ⟨by simpa using hquote, isQuoted_of_readBody? hb⟩
      · cases h
        exact ⟨c, _, rfl, hname, fun d hd => List.all_eq_true.1 List.all_takeWhile d hd⟩
      · obtain ⟨⟨s, r⟩, -, he⟩ := Option.map_eq_some_iff.1 h
        obtain ⟨rfl, rfl⟩ := Prod.mk.inj he
        trivial

lemma isBlank_of_isNameStart {c : Char} (h : isNameStart c) : isBlank c = false := by
  simp only [isNameStart, Bool.or_eq_true, beq_iff_eq] at h
  rcases h with (h | rfl) | rfl
  · have hbounds : (decide (c.val ≥ 65 ∧ c.val ≤ 90) ||
        (decide (c.val ≥ 97) && decide (c.val ≤ 122))) = true := h
    simp only [Bool.or_eq_true, Bool.and_eq_true, decide_eq_true_eq, ge_iff_le,
      UInt32.le_iff_toNat_le, Char.toNat_val, UInt32.reduceToNat] at hbounds
    exact isBlank_eq_false (by omega) (by omega)
  · decide
  · decide

/-- A token that starts an operand begins with a mark, a digit or a letter. -/
lemma Formed.exists_eq_cons {t : Token} (h : t.Formed) (hinitial : t.isInitial) :
    ∃ c cs, t.spelling = c :: cs ∧ isBlank c = false ∧ c ≠ '=' ∧ c ≠ '>' := by
  cases t with
  | number literal =>
    obtain ⟨c, cs, rfl, hc⟩ := exists_eq_cons_of_isNumeral h
    rcases hc with hc | rfl
    · refine ⟨c, cs, rfl, ?_, ?_, ?_⟩
      · rw [Char.isDigit_iff_toNat] at hc
        simp only [Char.reduceToNat] at hc
        exact isBlank_eq_false (by omega) (by omega)
      · rintro rfl
        cases hc
      · rintro rfl
        cases hc
    · exact ⟨_, _, rfl, by decide⟩
  | text quote body =>
    have hquote : quote = '"' ∨ quote = '\'' := by simpa using h.1
    rcases hquote with rfl | rfl <;> exact ⟨_, _, rfl, by decide⟩
  | name letters =>
    obtain ⟨c, cs, rfl, hc, -⟩ := h
    exact ⟨c, cs, rfl, isBlank_of_isNameStart hc, ne_of_isNameStart hc (by decide),
      ne_of_isNameStart hc (by decide)⟩
  | symbol s =>
    rcases s with _ | _ | _ | _ | _ | _ | _ | _ | _ | _ | ⟨⟨⟨⟩⟩ | ⟨⟨⟩⟩⟩ <;>
      first
      | exact ⟨_, _, rfl, by decide⟩
      | cases hinitial

end Token

namespace Lexeme

/-- Do the tokens stand at their bytes in a text that starts at a byte, with only spaces between? -/
inductive Laid : Nat → List Lexeme → List Char → Prop
  | nil {offset} : Laid offset [] []
  | space {offset ls c cs} (hc : Token.isSpace c) (h : Laid (offset + c.utf8Size) ls cs) :
    Laid offset ls (c :: cs)
  | token {offset t ls cs} (ht : t.Formed) (hne : t.spelling ≠ [])
    (h : Laid (offset + byteLength t.spelling) ls cs) :
    Laid offset (⟨t, offset, offset + byteLength t.spelling⟩ :: ls) (t.spelling ++ cs)

theorem laid_of_scan? {offset : Nat} {cs : List Char} {ls : List Lexeme}
    (h : scan? offset cs = some ls) : Laid offset ls cs := by
  fun_induction scan? offset cs generalizing ls with
  | case1 =>
    cases h
    exact .nil
  | case2 offset c cs hc ih => exact .space hc (ih h)
  | case3 => cases h
  | case4 offset c cs _ t rest hread stop =>
    rename_i ih
    obtain ⟨others, hothers, rfl⟩ := Option.map_eq_some_iff.1 h
    obtain ⟨hcs, hne⟩ := Token.read?_append hread
    rw [hcs]
    exact .token (Token.formed_of_read? hread) hne (ih hothers)

namespace Laid

variable {offset : Nat} {ls : List Lexeme} {cs : List Char}

lemma le_start (h : Laid offset ls cs) : ∀ l ∈ ls, offset ≤ l.start := by
  induction h with
  | nil => nofun
  | space _ _ ih => exact fun l hl => Nat.le_of_add_right_le (ih l hl)
  | token _ _ _ ih =>
    intro l hl
    rcases List.mem_cons.1 hl with rfl | hl
    · exact Nat.le_refl _
    · exact Nat.le_of_add_right_le (ih l hl)

/-- Tokens do not overlap and keep the order of the text. -/
lemma pairwise (h : Laid offset ls cs) : ls.Pairwise fun l l' => l.stop ≤ l'.start := by
  induction h with
  | nil => exact .nil
  | space _ _ ih => exact ih
  | token _ _ h ih => exact .cons (fun l hl => h.le_start l hl) ih

lemma formed (h : Laid offset ls cs) : ∀ l ∈ ls, l.token.Formed := by
  induction h with
  | nil => nofun
  | space _ _ ih => exact ih
  | token ht _ _ ih => exact List.forall_mem_cons.2 ⟨ht, ih⟩

lemma start_lt_stop (h : Laid offset ls cs) : ∀ l ∈ ls, l.start < l.stop := by
  induction h with
  | nil => nofun
  | space _ _ ih => exact ih
  | @token _ t _ _ _ hne _ ih =>
    refine List.forall_mem_cons.2 ⟨?_, ih⟩
    obtain ⟨c, rest, hc⟩ := List.exists_cons_of_ne_nil hne
    have := c.utf8Size_pos
    simp only [hc, byteLength]
    omega

/-- Nothing but spaces stands before the first token. -/
lemma exists_first {offset : Nat} {l : Lexeme} {ls : List Lexeme} {cs : List Char}
    (h : Laid offset (l :: ls) cs) : ∃ spaces rest, cs = spaces ++ (l.token.spelling ++ rest) ∧
      (∀ c ∈ spaces, Token.isSpace c) ∧ Laid l.start (l :: ls) (l.token.spelling ++ rest) := by
  generalize hlexemes : l :: ls = lexemes at h
  induction h with
  | nil => cases hlexemes
  | @space _ _ c _ hc _ ih =>
    obtain ⟨spaces, rest, rfl, hspaces, hlaid⟩ := ih hlexemes
    exact ⟨c :: spaces, rest, rfl, List.forall_mem_cons.2 ⟨hc, hspaces⟩, hlaid⟩
  | @token _ _ _ cs ht hne h ih =>
    cases hlexemes
    exact ⟨[], cs, rfl, nofun, .token ht hne h⟩

end Laid

end Lexeme

end Timeline
