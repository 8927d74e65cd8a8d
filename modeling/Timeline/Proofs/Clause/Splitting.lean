import Mathlib
import Timeline.Clause.Basic
import Timeline.Proofs.Expression.Layout
import Timeline.Proofs.Expression.Written
import Timeline.Proofs.Text.Runs

/-! # Splitting a clause

The text of a clause is split at `=` without its expression being read. Nevertheless the two views
of it agree: no text that can be read as an expression has an `=` of its own to split at, and a key
before it does not change what it is compiled to. -/
namespace Timeline

namespace Clause

/-- Is a character no part of an assignment and of no quoted text? -/
def IsPlain (c : Char) : Prop := c ≠ '=' ∧ c ≠ '\'' ∧ c ≠ '"'

variable {before : Option Char} {c : Char} {cs ds : List Char}

lemma splitFrom_cons_of_isPlain (hc : IsPlain c) :
    splitFrom before none (c :: cs) =
      (splitFrom (some c) none cs).map fun (k, e) => (c :: k, e) := by
  obtain ⟨hequals, hsingle, hdouble⟩ := hc
  simp [splitFrom, hequals, hsingle, hdouble]

lemma splitFrom_append_eq_none (h : ∀ b, splitFrom b none ds = none) (hcs : ∀ c ∈ cs, IsPlain c) :
    splitFrom before none (cs ++ ds) = none := by
  induction cs generalizing before with
  | nil => exact h before
  | cons c cs ih =>
    rw [List.cons_append, splitFrom_cons_of_isPlain (hcs c (by simp)),
      ih fun d hd => hcs d (by simp [hd])]
    rfl

/-- Every `=` in a symbol is joined to a character of the symbol. -/
lemma splitFrom_symbol_eq_none (s : Symbol) (h : ∀ b, splitFrom b none ds = none) :
    splitFrom before none (s.spelling ++ ds) = none := by
  rcases s with _ | _ | _ | _ | _ | _ | _ | _ | _ | _ | ⟨⟨⟨⟩⟩ | ⟨⟨⟩⟩⟩ <;>
    simp [Symbol.spelling, splitFrom, isJoined, h]

lemma splitFrom_quoted_cons {quote : Char} (hc : c ≠ '\\') :
    splitFrom before (some quote) (c :: cs) =
      (splitFrom (some c) (if c = quote then none else some quote) cs).map
        fun (k, e) => (c :: k, e) := by
  rw [splitFrom.eq_def]
  simp [hc]

/-- Quoted text is passed over as it is read. -/
lemma splitFrom_quoted_eq_none {quote : Char} {body : List Char} (hbody : IsQuoted quote body)
    (hquote : quote ≠ '\\') (h : ∀ b, splitFrom b none ds = none) :
    splitFrom before (some quote) (body ++ quote :: ds) = none := by
  induction hbody generalizing before with
  | nil =>
    rw [List.nil_append, splitFrom_quoted_cons hquote, if_pos rfl, h]
    rfl
  | plain hne hslash _ ih =>
    rw [List.cons_append, splitFrom_quoted_cons hslash, if_neg hne, ih]
    rfl
  | escaped _ ih => simp [splitFrom, ih]

lemma isPlain_of_isNamePart {c : Char} (h : Token.isNamePart c) : IsPlain c := by
  refine ⟨?_, ?_, ?_⟩ <;> rintro rfl <;> exact absurd h (by decide)

lemma isPlain_of_isDigit {c : Char} (h : c.isDigit) : IsPlain c := by
  refine ⟨?_, ?_, ?_⟩ <;> rintro rfl <;> exact absurd h (by decide)

lemma isPlain_of_isSignificand (h : IsSignificand cs) : ∀ c ∈ cs, IsPlain c := by
  have hpoint : IsPlain '.' := by unfold IsPlain; decide
  have hdigits {ds : List Char} (h : IsDigits ds) : ∀ c ∈ ds, IsPlain c :=
    fun c hc => isPlain_of_isDigit (h.2 c hc)
  cases h with
  | whole hds => exact hdigits hds
  | mixed hds hfs => exact List.forall_mem_append.2 ⟨hdigits hds,
      List.forall_mem_cons.2 ⟨hpoint, hdigits hfs⟩⟩
  | fraction hfs => exact List.forall_mem_cons.2 ⟨hpoint, hdigits hfs⟩

lemma isPlain_of_isNumeral (h : IsNumeral cs) : ∀ c ∈ cs, IsPlain c := by
  cases h with
  | plain hs => exact isPlain_of_isSignificand hs
  | @scaled s mark sign ds hs hmark hsign hds =>
    have hmark : IsPlain mark := by
      simp only [List.mem_cons, List.not_mem_nil, or_false] at hmark
      unfold IsPlain
      rcases hmark with rfl | rfl <;> decide
    have hsign : ∀ c ∈ sign, IsPlain c := by
      simp only [List.mem_cons, List.not_mem_nil, or_false] at hsign
      rcases hsign with rfl | rfl | rfl <;> simp [IsPlain]
    exact List.forall_mem_append.2 ⟨isPlain_of_isSignificand hs, List.forall_mem_cons.2 ⟨hmark,
      List.forall_mem_append.2 ⟨hsign, fun c hc => isPlain_of_isDigit (hds.2 c hc)⟩⟩⟩

lemma isPlain_of_isIdentifier (h : IsIdentifier cs) : ∀ c ∈ cs, IsPlain c := by
  obtain ⟨c, rest, rfl, hc, hrest⟩ := h
  refine List.forall_mem_cons.2 ⟨?_, fun d hd => isPlain_of_isNamePart (hrest d hd)⟩
  refine ⟨?_, ?_, ?_⟩ <;> rintro rfl <;> exact absurd hc (by decide)

lemma splitFrom_token_eq_none {t : Token} (ht : t.Formed) (h : ∀ b, splitFrom b none ds = none) :
    splitFrom before none (t.spelling ++ ds) = none := by
  cases t with
  | number literal => exact splitFrom_append_eq_none h (isPlain_of_isNumeral ht)
  | name letters => exact splitFrom_append_eq_none h (isPlain_of_isIdentifier ht)
  | symbol s => exact splitFrom_symbol_eq_none s h
  | text quote body =>
    obtain ⟨hquote, hbody⟩ := ht
    have hquote : quote = '"' ∨ quote = '\'' := by simpa using hquote
    have hslash : quote ≠ '\\' := by rcases hquote with rfl | rfl <;> decide
    have hbody : splitFrom (some quote) (some quote) (body ++ quote :: ds) = none :=
      splitFrom_quoted_eq_none hbody hslash h
    rcases hquote with rfl | rfl <;> simp [Token.spelling, splitFrom, hbody]

/-- No text that is cut into tokens is an assignment. -/
theorem splitFrom_eq_none_of_laid {offset : Nat} {ls : List Lexeme} (h : Lexeme.Laid offset ls cs)
    (before : Option Char) : splitFrom before none cs = none := by
  induction h generalizing before with
  | nil => rfl
  | @space _ _ c _ hc _ ih =>
    have hplain : IsPlain c := by
      unfold IsPlain
      rcases Token.eq_of_isSpace hc with rfl | rfl | rfl | rfl <;> decide
    rw [splitFrom_cons_of_isPlain hplain, ih]
    rfl
  | token ht _ _ ih => exact splitFrom_token_eq_none ht ih

/-- May a text stand before the `=` of an assignment? -/
def IsKey (k : List Char) : Prop :=
  (∀ c ∈ k, IsPlain c) ∧ ∀ c ∈ k.getLast?, c ≠ '!' ∧ c ≠ '<' ∧ c ≠ '>'

lemma IsKey.trimStart {k : List Char} (h : IsKey k) : IsKey (Text.trimStart k) := by
  have hsuffix : Text.trimStart k <:+ k := List.dropWhile_suffix _
  refine ⟨fun c hc => h.1 c (hsuffix.subset hc), fun c hc => h.2 c ?_⟩
  obtain ⟨blanks, hk⟩ := hsuffix
  rw [← hk, List.getLast?_append, Option.mem_def.1 hc]
  rfl

lemma isJoined_eq_false (hbefore : ∀ c ∈ before, c ≠ '=' ∧ c ≠ '!' ∧ c ≠ '<' ∧ c ≠ '>')
    (hcs : ∀ c ∈ cs.head?, c ≠ '=' ∧ c ≠ '>') : isJoined before cs = false := by
  unfold isJoined
  rw [Bool.or_eq_false_iff]
  constructor
  · cases before with
    | none => rfl
    | some c => simpa [and_assoc] using hbefore c rfl
  · split
    · exact absurd rfl (hcs _ rfl).1
    · exact absurd rfl (hcs _ rfl).2
    · rfl

lemma splitFrom_eq_some {k : List Char} (hk : ∀ c ∈ k, IsPlain c)
    (hlast : ∀ c ∈ (before.toList ++ k).getLast?, c ≠ '=' ∧ c ≠ '!' ∧ c ≠ '<' ∧ c ≠ '>')
    (hcs : ∀ c ∈ cs.head?, c ≠ '=' ∧ c ≠ '>') :
    splitFrom before none (k ++ '=' :: cs) = some (k, cs) := by
  induction k generalizing before with
  | nil =>
    have hjoined : isJoined before cs = false :=
      isJoined_eq_false (fun c hc => hlast c (by simp [Option.mem_def.1 hc])) hcs
    simp [splitFrom, hjoined]
  | cons c k ih =>
    have htail : splitFrom (some c) none (k ++ '=' :: cs) = some (k, cs) := by
      refine ih (fun d hd => hk d (by simp [hd])) fun d hd => hlast d ?_
      rw [List.getLast?_append_of_ne_nil _ (by simp)]
      exact hd
    rw [List.cons_append, splitFrom_cons_of_isPlain (hk c (by simp)), htail]
    rfl

/-- A key and `=` before a text that does not go on with an operator are split off. -/
theorem split_eq_of_isKey {k : List Char} (hk : IsKey k) (hcs : ∀ c ∈ cs.head?, c ≠ '=' ∧ c ≠ '>') :
    split (k ++ '=' :: cs) = (k, cs) := by
  have h : splitFrom none none (k ++ '=' :: cs) = some (k, cs) :=
    splitFrom_eq_some hk.1 (fun c hc => ⟨(hk.1 c (List.mem_of_mem_getLast? hc)).1, hk.2 c hc⟩) hcs
  rw [split, h]
  rfl

lemma isJoined_append (hds : ∀ c ∈ ds.head?, c ≠ '=' ∧ c ≠ '>') :
    isJoined before (cs ++ ds) = isJoined before cs := by
  cases cs with
  | cons c cs => by_cases hc : c = '=' <;> by_cases hc' : c = '>' <;> simp [isJoined, hc, hc']
  | nil =>
    have hnext (xs : List Char) (hxs : ∀ c ∈ xs.head?, c ≠ '=' ∧ c ≠ '>') :
        isJoined none xs = false := isJoined_eq_false nofun hxs
    have hsplit (xs : List Char) :
        isJoined before xs = (isJoined before [] || isJoined none xs) := by simp [isJoined]
    rw [List.nil_append, hsplit, hnext ds hds, Bool.or_false]

/-- What has no assignment has none without its end either. -/
lemma splitFrom_eq_none_of_append {quote : Option Char}
    (h : splitFrom before quote (cs ++ ds) = none) (hds : ∀ c ∈ ds.head?, c ≠ '=' ∧ c ≠ '>') :
    splitFrom before quote cs = none := by
  fun_induction splitFrom before quote cs with
  | case1 | case2 => rfl
  | case3 before q d cs ih =>
    rw [List.cons_append, List.cons_append, splitFrom, if_pos rfl, Option.map_eq_none_iff] at h
    rw [ih h]
    rfl
  | case4 before c cs q hslash quote ih =>
    rw [List.cons_append, splitFrom_quoted_cons hslash, Option.map_eq_none_iff] at h
    rw [ih h]
    rfl
  | case5 before c cs hassign =>
    rw [List.cons_append, splitFrom, isJoined_append hds, if_pos hassign] at h
    cases h
  | case6 before c cs hassign quote ih =>
    rw [List.cons_append, splitFrom, isJoined_append hds, if_neg hassign,
      Option.map_eq_none_iff] at h
    rw [ih h]
    rfl

end Clause

namespace Tree

/-- A text that can be read begins, after spaces, with a character that is neither blank nor goes on
with an operator. -/
lemma exists_of_ofText? {e : String} {tree : Tree} (h : ofText? e = some tree) :
    ∃ spaces c rest, e.toList = spaces ++ c :: rest ∧ (∀ b ∈ spaces, Token.isSpace b) ∧
      Text.isBlank c = false ∧ (c ≠ '=' ∧ c ≠ '>') ∧
      Clause.splitFrom none none (c :: rest) = none := by
  obtain ⟨ls, hls, htree⟩ := Option.bind_eq_some_iff.1 h
  obtain ⟨l, ls, rfl, hinitial⟩ := (written_of_ofTokens? htree).exists_initial
  obtain ⟨spaces, rest, he, hspaces, hlaid⟩ := (Lexeme.laid_of_scan? hls).exists_first
  obtain ⟨c, cs, hspelling, hblank, hne⟩ :=
    Token.Formed.exists_eq_cons (hlaid.formed l (by simp)) hinitial
  rw [hspelling, List.cons_append] at he hlaid
  exact ⟨spaces, c, cs ++ rest, he, hspaces, hblank, hne,
    Clause.splitFrom_eq_none_of_laid hlaid none⟩

/-- No text that can be read has an assignment. -/
lemma splitFrom_eq_none_of_ofText? {e : String} {tree : Tree} (h : ofText? e = some tree) :
    Clause.splitFrom none none e.toList = none := by
  obtain ⟨ls, hls, -⟩ := Option.bind_eq_some_iff.1 h
  exact Clause.splitFrom_eq_none_of_laid (Lexeme.laid_of_scan? hls) none

end Tree

lemma Token.isBlank_of_isSpace {spaces : List Char} (h : ∀ b ∈ spaces, isSpace b) :
    ∀ b ∈ spaces, Text.isBlank b := by
  intro b hb
  rcases eq_of_isSpace (h b hb) with rfl | rfl | rfl | rfl <;> decide

lemma Clause.head_of_spaces {spaces : List Char} (hspaces : ∀ b ∈ spaces, Token.isSpace b)
    {c : Char} (hc : c ≠ '=' ∧ c ≠ '>') (cs : List Char) :
    ∀ d ∈ (spaces ++ c :: cs).head?, d ≠ '=' ∧ d ≠ '>' := by
  intro d hd
  cases spaces with
  | nil =>
    cases hd
    exact hc
  | cons b spaces =>
    cases hd
    rcases Token.eq_of_isSpace (hspaces d (by simp)) with rfl | rfl | rfl | rfl <;> decide

lemma Clause.splitFrom_trimEnd_eq_none {c : Char} {cs : List Char}
    (h : splitFrom none none (c :: cs) = none) :
    splitFrom none none (c :: Text.trimEnd cs) = none := by
  have hcs : Text.trimEnd cs ++ cs.rtakeWhile Text.isBlank = cs :=
    List.rdropWhile_append_rtakeWhile
  rw [← hcs, ← List.cons_append] at h
  refine splitFrom_eq_none_of_append h fun d hd => ?_
  have hblank : Text.isBlank d := List.mem_rtakeWhile_imp (List.mem_of_mem_head? hd)
  constructor <;> rintro rfl <;> exact absurd hblank (by decide)

namespace ClauseList

/-- The list of one clause whose expression was compiled. -/
def single (target : Target) (source : List Char) : Except CompileError Expr → ClauseList
  | .ok e => ⟨[⟨target, some e, String.ofList source⟩], []⟩
  | .error error => ⟨[⟨target, none, String.ofList source⟩], [error]⟩

lemma compile_eq_single {text : String} (htext : ';' ∉ text.toList) {source key cs : List Char}
    (hsource : Text.trim text.toList = source) (hne : source ≠ [])
    (hsplit : Clause.split source = (key, cs)) :
    compile text = single (Target.ofKey (Text.trim key)) source
      (Expr.compile .template (String.ofList (Text.trim cs))) := by
  have hpieces : pieces text = [source] := by
    rw [pieces, List.splitOn_eq_singleton htext, List.map_singleton, hsource]
    simp [hne]
  rw [compile, hpieces, List.map_singleton, Clause.compile, hsplit]
  dsimp only
  cases Expr.compile .template (String.ofList (Text.trim cs)) <;> rfl

end ClauseList

/-- A text that can be read as an expression has no assignment, and a key and `=` before it are
split off. Without semicolons either text is one clause, with what the expression compiles to. -/
theorem ClauseList.compile_keyed {e : String} {tree : Tree} (h : Tree.ofText? e = some tree) :
    Clause.splitFrom none none e.toList = none ∧ Clause.split e.toList = ([], e.toList) ∧
    ∀ k : String, Clause.IsKey k.toList →
      Clause.split (k ++ "=" ++ e).toList = (k.toList, e.toList) ∧
      (';' ∉ k.toList → ';' ∉ e.toList →
        let result := Expr.compile .template (String.ofList (Text.trim e.toList))
        ClauseList.compile e = single .none (Text.trim e.toList) result ∧
        ClauseList.compile (k ++ "=" ++ e) = single (Target.ofKey (Text.trim k.toList))
          (Text.trim (k ++ "=" ++ e).toList) result) := by
  have hnone : Clause.splitFrom none none e.toList = none := Tree.splitFrom_eq_none_of_ofText? h
  obtain ⟨spaces, c, rest, he, hspaces, hc, hne, hfirst⟩ := Tree.exists_of_ofText? h
  have hhead (cs : List Char) : ∀ d ∈ (spaces ++ c :: cs).head?, d ≠ '=' ∧ d ≠ '>' :=
    Clause.head_of_spaces hspaces hne cs
  have hblanks : ∀ b ∈ spaces, Text.isBlank b := Token.isBlank_of_isSpace hspaces
  have htrim : Text.trim e.toList = c :: Text.trimEnd rest := by
    rw [he, Text.trim_append_cons hblanks hc]
  refine ⟨hnone, by rw [Clause.split, hnone]; rfl, fun k hk => ?_⟩
  have hkeyed : (k ++ "=" ++ e).toList = k.toList ++ '=' :: e.toList := by simp
  refine ⟨?_, fun hksemi hesemi => ⟨?_, ?_⟩⟩
  · rw [hkeyed, he]
    exact Clause.split_eq_of_isKey hk (hhead rest)
  · have hsplit : Clause.split (c :: Text.trimEnd rest) = ([], c :: Text.trimEnd rest) := by
      rw [Clause.split, Clause.splitFrom_trimEnd_eq_none hfirst]
      rfl
    have hexpression : Text.trim (c :: Text.trimEnd rest) = c :: Text.trimEnd rest := by
      have h := @Text.trim_append_cons [] c nofun hc (Text.trimEnd rest)
      rwa [Text.trimEnd_trimEnd, List.nil_append] at h
    rw [compile_eq_single hesemi htrim (by simp) hsplit, hexpression, htrim]
    rfl
  -- the spaces at the start of the key and at the end of the expression go before the clause is
  -- split, the other ones after that
  · have hsource : Text.trim (k ++ "=" ++ e).toList =
        Text.trimStart k.toList ++ '=' :: Text.trimEnd e.toList := by
      rw [hkeyed, Text.trim_middle (by decide)]
    have hsplit : Clause.split (Text.trimStart k.toList ++ '=' :: Text.trimEnd e.toList) =
        (Text.trimStart k.toList, Text.trimEnd e.toList) := by
      rw [he, Text.trimEnd_append_cons hc]
      exact Clause.split_eq_of_isKey hk.trimStart (hhead _)
    have hexpression : Text.trim (Text.trimEnd e.toList) = Text.trim e.toList := by
      rw [htrim, he, Text.trim_trimEnd hblanks hc]
    have hsemicolon : ';' ∉ (k ++ "=" ++ e).toList := by
      rw [hkeyed]
      simp [hksemi, hesemi]
    rw [compile_eq_single hsemicolon hsource (by simp) hsplit, Text.trim_trimStart, hexpression,
      hsource]

/-- Neither the operators with `=` nor the `=` in a text are taken for the one of the assignment. -/
theorem ClauseList.compile_keyed_width :
    Clause.IsKey " @width ".toList ∧
    ClauseList.compile " item.a === 'x=y' ? v => v >= 2 : 3 " =
      single .none "item.a === 'x=y' ? v => v >= 2 : 3".toList
        (Expr.compile .template "item.a === 'x=y' ? v => v >= 2 : 3") ∧
    ClauseList.compile (" @width " ++ "=" ++ " item.a === 'x=y' ? v => v >= 2 : 3 ") =
      single (.style "width") "@width = item.a === 'x=y' ? v => v >= 2 : 3".toList
        (Expr.compile .template "item.a === 'x=y' ? v => v >= 2 : 3") := by
  have hkey : Clause.IsKey " @width ".toList := by simp [Clause.IsKey, Clause.IsPlain]
  obtain ⟨tree, htree⟩ : ∃ tree,
      Tree.ofText? " item.a === 'x=y' ? v => v >= 2 : 3 " = some tree :=
    Option.isSome_iff_exists.1 (by cbv)
  obtain ⟨-, -, hkeyed⟩ := ClauseList.compile_keyed htree
  exact ⟨hkey, (hkeyed " @width " hkey).2 (by decide) (by decide)⟩

end Timeline
