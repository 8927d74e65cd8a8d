import Mathlib.Data.List.Chain
import Timeline.Proofs.Expression.Legible

/-! # Tokens with spaces between them

Which tokens may touch, and that a text of such tokens is cut into just these tokens, however many
spaces stand between them. -/
namespace Timeline

namespace Token

/-- May the second token follow the first one without a space? -/
def Adjacent : Token → Token → Prop
  | number _, u | name _, u => ∃ s, u = symbol s
  | text .., _ => True
  | symbol .dot, u => ∃ letters, u = name letters
  | symbol s, u => s.extension? = none ∨ u.isInitial

lemma adjacent_symbol {s : Symbol} (hs : s ≠ .dot) {u : Token} :
    Adjacent (symbol s) u ↔ s.extension? = none ∨ u.isInitial := by
  cases s with
  | dot => exact absurd rfl hs
  | _ => exact Iff.rfl

end Token

lemma Lexeme.scan?_of_read? {c : Char} {cs rest : List Char} {t : Token}
    (hspace : Token.isSpace c = false) (hread : Token.read? (c :: cs) = some (t, rest))
    (offset : Nat) :
    scan? offset (c :: cs) =
      (scan? (offset + Text.byteLength t.spelling) rest).map
        (⟨t, offset, offset + Text.byteLength t.spelling⟩ :: ·) := by
  rw [scan?, hspace]
  simp only [Bool.false_eq_true, if_false]
  split
  · next hnone =>
    rw [hread] at hnone
    cases hnone
  · next u cs' hsome =>
    rw [hread] at hsome
    cases hsome
    rfl

/-- A text of tokens with any spaces before, between and after them. -/
inductive Spaced : List Token → List Char → Prop
  | nil : Spaced [] []
  | space {c ts cs} (hc : Token.isSpace c) (h : Spaced ts cs) : Spaced ts (c :: cs)
  | token {t ts cs} (h : Spaced ts cs) : Spaced (t :: ts) (t.spelling ++ cs)

namespace Spaced
open Token

variable {ts : List Token} {cs : List Char}

lemma head_of_mem (h : Spaced ts cs) (hts : ∀ t ∈ ts, t.Legible) {c : Char} (hc : c ∈ cs.head?) :
    isSpace c ∨ ∃ t ∈ ts.head?, c ∈ t.spelling.head? := by
  cases h with
  | nil => cases hc
  | space hspace =>
    cases hc
    exact .inl hspace
  | @token t ts cs =>
    obtain ⟨d, ds, hd, -⟩ := (hts t (by simp)).exists_spelling_eq
    refine .inr ⟨t, rfl, ?_⟩
    simpa [hd] using hc

lemma symbol_stops (h : Spaced ts cs) (hts : ∀ t ∈ ts, t.Legible) {s : Symbol}
    (hs : ∀ t ∈ ts.head?, Adjacent (.symbol s) t) : s.Stops cs := by
  constructor
  -- neither a space nor a token that starts an operand makes a longer symbol
  · intro c hc d hd
    have hc' : c = '=' ∨ c = '?' := by
      unfold Symbol.extension? at hc
      split at hc <;> cases hc <;> simp
    rcases h.head_of_mem hts hd with hspace | ⟨t, ht, hdt⟩
    · rcases hc' with rfl | rfl <;>
        rcases eq_of_isSpace hspace with rfl | rfl | rfl | rfl <;> decide
    · have hdot : s ≠ .dot := by
        rintro rfl
        cases hc
      rcases (adjacent_symbol hdot).1 (hs t ht) with hnone | hinitial
      · rw [hnone] at hc
        cases hc
      · obtain ⟨e, es, he, -, hne⟩ := (hts t (List.mem_of_mem_head? ht)).exists_spelling_eq
        rw [he] at hdt
        cases hdt
        rcases hc' with rfl | rfl
        · exact (hne hinitial).1
        · exact (hne hinitial).2
  · rintro rfl d hd
    rcases h.head_of_mem hts hd with hspace | ⟨t, ht, hdt⟩
    · rcases eq_of_isSpace hspace with rfl | rfl | rfl | rfl <;> decide
    · obtain ⟨letters, rfl⟩ := hs t ht
      obtain ⟨c, rest, rfl, hc, -⟩ := hts _ (List.mem_of_mem_head? ht)
      cases hdt
      exact isDigit_of_isNameStart hc

lemma number_stops (h : Spaced ts cs) (hts : ∀ t ∈ ts, t.Legible)
    (hlinks : ts.IsChain Adjacent) (hnext : ∀ t ∈ ts.head?, ∃ s, t = .symbol s) :
    NumberStops cs := by
  cases h with
  | nil => exact ⟨nofun, rfl, rfl⟩
  | @space c ts cs hspace =>
    refine ⟨?_, fraction?_eq_none ?_, exponent?_eq_none ?_⟩ <;> rintro d ⟨⟩ <;>
      rcases eq_of_isSpace hspace with rfl | rfl | rfl | rfl <;> decide
  | @token t ts cs h =>
    obtain ⟨s, rfl⟩ := hnext t rfl
    obtain ⟨c, rest, hs, hdigit, hname, -, -, -, hdot, -⟩ := s.exists_spelling_eq
    have hletter : c ≠ 'e' ∧ c ≠ 'E' := by
      constructor <;> rintro rfl <;> exact absurd hname (by decide)
    have hhead : ∀ {d}, d ∈ ((Token.symbol s).spelling ++ cs).head? → d = c := by
      intro d hd
      simpa [Token.spelling, hs, eq_comm] using hd
    refine ⟨fun d hd => hhead hd ▸ hdigit, ?_, exponent?_eq_none fun d hd => hhead hd ▸ hletter⟩
    by_cases hc : c = '.'
    -- what follows a point is a name, so the point does not go on with the number
    · obtain rfl := hdot hc
      have hstops : Symbol.dot.Stops cs :=
        h.symbol_stops (fun t ht => hts t (by simp [ht])) (List.isChain_cons.1 hlinks).1
      change fraction? ('.' :: cs) = none
      rw [fraction?, Text.digits_eq_nil (hstops.2 rfl)]
    · exact fraction?_eq_none fun d hd => hhead hd ▸ hc

lemma token_stops (h : Spaced ts cs) (hts : ∀ t ∈ ts, t.Legible) {t : Token}
    (hlinks : (t :: ts).IsChain Adjacent) : t.Stops cs := by
  have hnext : ∀ u ∈ ts.head?, Adjacent t u := (List.isChain_cons.1 hlinks).1
  cases t with
  | text quote body => trivial
  | number literal => exact h.number_stops hts hlinks.tail hnext
  | symbol s => exact h.symbol_stops hts hnext
  | name letters =>
    intro c hc
    rcases h.head_of_mem hts hc with hspace | ⟨u, hu, hcu⟩
    · rcases eq_of_isSpace hspace with rfl | rfl | rfl | rfl <;> decide
    · obtain ⟨s, rfl⟩ := hnext u hu
      obtain ⟨d, ds, hd, -, hpart, -⟩ := s.exists_spelling_eq
      rw [Token.spelling, hd] at hcu
      cases hcu
      exact hpart

/-- A text of tokens that may touch is cut into these tokens. -/
theorem scan?_eq_some (h : Spaced ts cs) (hts : ∀ t ∈ ts, t.Legible)
    (hlinks : ts.IsChain Adjacent) (offset : Nat) :
    ∃ ls, Lexeme.scan? offset cs = some ls ∧ ls.map Lexeme.token = ts := by
  induction h generalizing offset with
  | nil => exact ⟨[], by rw [Lexeme.scan?], rfl⟩
  | @space c ts cs hc h ih =>
    obtain ⟨ls, hscan, hls⟩ := ih hts hlinks (offset + c.utf8Size)
    exact ⟨ls, by rw [Lexeme.scan?, if_pos hc, hscan], hls⟩
  | @token t ts cs h ih =>
    have ht : t.Legible := hts t (by simp)
    have hts : ∀ t ∈ ts, t.Legible := fun u hu => hts u (by simp [hu])
    obtain ⟨ls, hscan, hls⟩ := ih hts hlinks.tail (offset + Text.byteLength t.spelling)
    refine ⟨⟨t, offset, offset + Text.byteLength t.spelling⟩ :: ls, ?_, by simp [hls]⟩
    have hread := read?_append_eq ht (h.token_stops hts hlinks)
    obtain ⟨c, rest, hc, hspace, -⟩ := ht.exists_spelling_eq
    have hcs : t.spelling ++ cs = c :: (rest ++ cs) := by rw [hc, List.cons_append]
    rw [hcs] at hread ⊢
    rw [Lexeme.scan?_of_read? hspace hread, hscan, Option.map_some]

end Spaced

end Timeline
