import Mathlib
import Timeline.Proofs.Clause.Sequence
import Timeline.Proofs.Clause.Splitting
import Timeline.Proofs.Expression.RoundTrip

/-! # Embedding texts

A host puts texts of its own into an attribute by writing them between single quotes, with escapes
for the backslash, the quote and the semicolon. No text breaks out of its quotes: neither the cut at
semicolons nor the one at `=` nor the reading of the expression sees anything of it but a text, and
what reaches the node is the text itself. -/
namespace Timeline

namespace Text

def embedChar (c : Char) : List Char :=
  if c = '\\' then ['\\', '\\']
  else if c = '\'' then ['\\', '\'']
  else if c = ';' then ['\\', 'u', '0', '0', '3', 'b']
  else [c]

/-- A text as it is written between single quotes. -/
def embed (cs : List Char) : List Char := cs.flatMap embedChar

lemma embed_cons (c : Char) (cs : List Char) : embed (c :: cs) = embedChar c ++ embed cs := rfl

lemma semicolon_notMem_embed (cs : List Char) : ';' ∉ embed cs := by
  induction cs with
  | nil => exact List.not_mem_nil
  | cons c cs ih =>
    rw [embed_cons, List.mem_append, not_or]
    refine ⟨?_, ih⟩
    unfold embedChar
    split_ifs with hslash hquote hsemicolon
    · decide
    · decide
    · decide
    · simpa using Ne.symm hsemicolon

lemma isQuoted_embed (cs : List Char) : IsQuoted '\'' (embed cs) := by
  induction cs with
  | nil => exact .nil
  | cons c cs ih =>
    rw [embed_cons, embedChar]
    split_ifs with hslash hquote hsemicolon
    · exact .escaped ih
    · exact .escaped ih
    · have hcode : IsQuoted '\'' ('0' :: '0' :: '3' :: 'b' :: embed cs) :=
        .plain (by decide) (by decide) (.plain (by decide) (by decide)
          (.plain (by decide) (by decide) (.plain (by decide) (by decide) ih)))
      exact .escaped hcode
    · exact .plain hquote hslash ih

/-- The code of the semicolon is read back as a semicolon, whatever follows it. -/
lemma unescape_semicolon (cs : List Char) :
    unescape ('\\' :: 'u' :: '0' :: '0' :: '3' :: 'b' :: cs) = ';' :: unescape cs := by
  have hcode : codeEscape ['0', '0', '3', 'b'] = [';'] := by decide
  simp [unescape, hcode]

theorem unescape_embed (cs : List Char) : unescape (embed cs) = cs := by
  induction cs with
  | nil => rw [embed, List.flatMap_nil, unescape]
  | cons c cs ih =>
    rw [embed_cons, embedChar]
    split_ifs with hslash hquote hsemicolon
    · simp [unescape, ih, hslash]
    · simp [unescape, ih, hquote]
    · simp only [List.cons_append, List.nil_append]
      rw [unescape_semicolon, ih, hsemicolon]
    · rw [List.singleton_append, unescape, ih]
      exact hslash

end Text

section
variable {quote : Char} {body : List Char}

lemma Token.readBody?_of_isQuoted (h : IsQuoted quote body) (hquote : quote ≠ '\\')
    (rest : List Char) : readBody? quote (body ++ quote :: rest) = some (body, rest) := by
  induction h with
  | nil => exact readBody?_quote hquote rest
  | plain hne hslash _ ih =>
    rw [List.cons_append, readBody?_plain hne hslash, ih]
    rfl
  | escaped _ ih => simp [readBody?, ih]

lemma Token.read?_of_isQuoted (h : IsQuoted quote body) (hquote : quote ∈ ['"', '\''])
    (rest : List Char) :
    read? (quote :: (body ++ quote :: rest)) = some (.text quote body, rest) := by
  have hquote : quote = '"' ∨ quote = '\'' := by simpa using hquote
  have hnumber : readNumber? (quote :: (body ++ quote :: rest)) = none := by
    rcases hquote with rfl | rfl <;>
      exact readNumber?_eq_none (by simp) (fraction?_eq_none (by simp))
  have hslash : quote ≠ '\\' := by rcases hquote with rfl | rfl <;> decide
  have hbody := readBody?_of_isQuoted h hslash rest
  simp [read?, hnumber, hquote, hbody]

/-- Whatever stands between two quotes is compiled to a text. -/
theorem Expr.compile_quoted (bindings : Bindings) (h : IsQuoted quote body)
    (hquote : quote ∈ ['"', '\'']) :
    compile bindings (String.ofList (quote :: (body ++ [quote]))) =
      .ok (.text (String.ofList (Text.unescape body))) := by
  have hspace : Token.isSpace quote = false := by
    simp only [List.mem_cons, List.not_mem_nil, or_false] at hquote
    rcases hquote with rfl | rfl <;> decide
  have hscan : ∃ l, Lexeme.scan? 0 (quote :: (body ++ [quote])) = some [l] ∧
      l.token = .text quote body := by
    rw [Lexeme.scan?_of_read? hspace (Token.read?_of_isQuoted h hquote []) 0, Lexeme.scan?]
    exact ⟨_, rfl, rfl⟩
  obtain ⟨l, hscan, hl⟩ := hscan
  have hreads : Reads 0 [l] (.text body) :=
    .single (by rw [hl]; rfl) fun rest => Tree.primary_text hl rest
  have hclosed : Closed [] := by simp [Closed]
  have hexpression : Tree.expression [l] = some (.text body, []) := hreads [] hclosed
  obtain ⟨_, hread⟩ := Tree.unbound_eq_some_iff.1 hexpression
  have htree : Tree.ofText? (String.ofList (quote :: (body ++ [quote]))) = some (.text body) := by
    simp only [Tree.ofText?, Lexeme.ofText?, String.toList_ofList, hscan, Option.bind_some,
      Tree.ofTokens?, hread]
  rw [compile, htree]
  rfl

end

/-- Where a host puts a text: an attribute, a property of the style, or the content of the node. -/
inductive Slot
  | attr (key : String)
  | style (property : String)
  | content

namespace Slot

def isKeyPart (c : Char) : Bool := c.isAlphanum || c == '_' || c == '-'

/-- Letters, digits, `_` and `-` after a letter. -/
def IsName (key : List Char) : Prop :=
  ∃ c rest, key = c :: rest ∧ c.isAlpha ∧ ∀ d ∈ rest, isKeyPart d

def Named : Slot → Prop
  | attr key | style key => IsName key.toList
  | content => True

def spelling : Slot → List Char
  | attr key => key.toList
  | style property => '@' :: property.toList
  | content => [':']

def target : Slot → Target
  | attr key => .attr key
  | style property => .style property
  | content => .text ":"

/-- What is done to a node to put a value there. -/
def call (value : Value) : Slot → NodeCall
  | attr key => .setAttribute key value
  | style property => .setStyle property value
  | content => .setText value

/-- The clause that puts a text there. -/
def clause (slot : Slot) (s : String) : List Char :=
  slot.spelling ++ '=' :: '\'' :: (Text.embed s.toList ++ ['\''])

/-- What that clause compiles to. -/
def compiled (slot : Slot) (s : String) : Clause :=
  ⟨slot.target, some (.text s), String.ofList (slot.clause s)⟩

/-- The attribute that puts texts into slots, one after another. -/
def attributeText (pairs : List (Slot × String)) : String :=
  ";".intercalate (pairs.map fun (slot, s) => String.ofList (slot.clause s))

lemma isBlank_of_isKeyPart {c : Char} (h : isKeyPart c) : Text.isBlank c = false := by
  simp only [isKeyPart, Char.isAlphanum, Bool.or_eq_true, beq_iff_eq] at h
  rcases h with ((halpha | hdigit) | rfl) | rfl
  · exact Token.isBlank_of_isNameStart (by simp [Token.isNameStart, halpha])
  · have hbounds := Char.isDigit_iff_toNat.1 hdigit
    simp only [Char.reduceToNat] at hbounds
    exact Text.isBlank_eq_false (by omega) (by omega)
  · decide
  · decide

/-- Is a character no blank and without a meaning for the cuts? -/
structure IsInert (c : Char) : Prop where
  notBlank : Text.isBlank c = false
  plain : Clause.IsPlain c
  noOperator : c ≠ '!' ∧ c ≠ '<' ∧ c ≠ '>'
  noSemicolon : c ≠ ';'

lemma isInert_of_isKeyPart {c : Char} (h : isKeyPart c) : IsInert c := by
  have hne (d : Char) (hd : isKeyPart d = false) : c ≠ d := by
    rintro rfl
    rw [h] at hd
    cases hd
  exact ⟨isBlank_of_isKeyPart h, ⟨hne _ rfl, hne _ rfl, hne _ rfl⟩,
    ⟨hne _ rfl, hne _ rfl, hne _ rfl⟩, hne _ rfl⟩

lemma isKeyPart_of_isName {key : List Char} (h : IsName key) : ∀ c ∈ key, isKeyPart c := by
  obtain ⟨c, rest, rfl, hc, hrest⟩ := h
  exact List.forall_mem_cons.2 ⟨by simp [isKeyPart, Char.isAlphanum, hc], hrest⟩

variable {slot : Slot}

lemma Named.isInert (h : slot.Named) : ∀ c ∈ slot.spelling, IsInert c := by
  have hat : IsInert '@' := ⟨by decide, by unfold Clause.IsPlain; decide, by decide, by decide⟩
  have hcolon : IsInert ':' := ⟨by decide, by unfold Clause.IsPlain; decide, by decide, by decide⟩
  have hname {key : List Char} (h : IsName key) : ∀ c ∈ key, IsInert c :=
    fun c hc => isInert_of_isKeyPart (isKeyPart_of_isName h c hc)
  cases slot with
  | attr key => exact hname h
  | style property => exact List.forall_mem_cons.2 ⟨hat, hname h⟩
  | content => exact List.forall_mem_singleton.2 hcolon

lemma Named.ofKey_spelling (h : slot.Named) : Target.ofKey slot.spelling = slot.target := by
  cases slot with
  | attr key =>
    obtain ⟨c, rest, hkey, hc, -⟩ := h
    have hne (d : Char) (hd : d.isAlpha = false) : c ≠ d := by
      rintro rfl
      rw [hc] at hd
      cases hd
    have hat : c ≠ '@' := hne _ rfl
    have hdollar : c ≠ '$' := hne _ rfl
    have hcolon : c ≠ ':' := hne _ rfl
    rw [spelling, target, hkey, Target.ofKey, ← hkey, String.ofList_toList]
    all_goals simp_all
  | style property => exact congrArg Target.style String.ofList_toList
  | content => rfl

lemma Named.trim_spelling (h : slot.Named) : Text.trim slot.spelling = slot.spelling :=
  Text.trim_eq_self (fun c hc => (h.isInert c (List.mem_of_mem_head? hc)).notBlank)
    fun c hc => (h.isInert c (List.mem_of_mem_getLast? hc)).notBlank

lemma Named.isKey_spelling (h : slot.Named) : Clause.IsKey slot.spelling :=
  ⟨fun c hc => (h.isInert c hc).plain,
    fun c hc => (h.isInert c (List.mem_of_mem_getLast? hc)).noOperator⟩

lemma getLast?_clause (slot : Slot) (s : String) : (slot.clause s).getLast? = some '\'' := by
  simp [clause, List.getLast?_append, List.getLast?_cons]

lemma Named.trim_clause (h : slot.Named) (s : String) :
    Text.trim (slot.clause s) = slot.clause s := by
  refine Text.trim_eq_self (fun c hc => ?_) fun c hc => ?_
  · rw [clause] at hc
    cases hspelling : slot.spelling with
    | nil =>
      rw [hspelling] at hc
      cases hc
      decide
    | cons d rest =>
      rw [hspelling] at hc
      cases hc
      exact (h.isInert c (by simp [hspelling])).notBlank
  · rw [getLast?_clause] at hc
    cases hc
    decide

lemma Named.semicolon_notMem_clause (h : slot.Named) (s : String) : ';' ∉ slot.clause s := by
  have hspelling : ';' ∉ slot.spelling := fun hmem => (h.isInert ';' hmem).noSemicolon rfl
  simp [clause, hspelling, Text.semicolon_notMem_embed]

/-- A slot and a text make a clause that computes the text for the slot. -/
theorem Named.compile_clause (h : slot.Named) (s : String) :
    Clause.compile (slot.clause s) = (slot.compiled s, none) := by
  have hsplit : Clause.split (slot.clause s) =
      (slot.spelling, '\'' :: (Text.embed s.toList ++ ['\''])) :=
    Clause.split_eq_of_isKey h.isKey_spelling (by simp)
  have htrim : Text.trim ('\'' :: (Text.embed s.toList ++ ['\''])) =
      '\'' :: (Text.embed s.toList ++ ['\'']) := by
    refine Text.trim_eq_self (fun c hc => ?_) fun c hc => ?_
    · cases hc
      decide
    · rw [List.getLast?_cons, List.getLast?_concat] at hc
      cases hc
      decide
  have hcompile : Expr.compile .template
      (String.ofList ('\'' :: (Text.embed s.toList ++ ['\'']))) = .ok (.text s) := by
    rw [Expr.compile_quoted .template (Text.isQuoted_embed s.toList) (by simp),
      Text.unescape_embed, String.ofList_toList]
  rw [Clause.compile, hsplit]
  dsimp only
  rw [htrim, hcompile, h.trim_spelling, h.ofKey_spelling]
  rfl

variable {pairs : List (Slot × String)}

/-- The cut at semicolons gives back the clauses. -/
lemma pieces_attributeText (h : ∀ p ∈ pairs, p.1.Named) :
    ClauseList.pieces (attributeText pairs) = pairs.map fun p => p.1.clause p.2 := by
  have htoList : (attributeText pairs).toList =
      [';'].intercalate (pairs.map fun p => p.1.clause p.2) := by
    rw [attributeText, String.toList_intercalate, List.map_map]
    simp [Function.comp_def]
  rw [ClauseList.pieces, htoList]
  cases pairs with
  | nil => rfl
  | cons p pairs =>
    have hcut : ∀ piece ∈ (p :: pairs).map fun p => p.1.clause p.2, ';' ∉ piece := by
      simp only [List.forall_mem_map]
      exact fun q hq => (h q hq).semicolon_notMem_clause q.2
    have htrim : ((p :: pairs).map fun p => p.1.clause p.2).map Text.trim =
        (p :: pairs).map fun p => p.1.clause p.2 := by
      rw [List.map_map]
      exact List.map_congr_left fun q hq => (h q hq).trim_clause q.2
    rw [List.splitOn_intercalate ';' hcut (by simp), htrim]
    refine List.filter_eq_self.2 (List.forall_mem_map.2 fun q hq => ?_)
    simp [clause]

/-- The clauses of the attribute run one after another, each making its call. -/
lemma evaluate_clauses (depth : Nat) (scope : Scope) (pairs : List (Slot × String)) :
    Clause.evaluate depth scope (pairs.map fun p => p.1.compiled p.2) =
      some ⟨pairs.map fun p => p.1.call (.text p.2), [], none⟩ := by
  induction pairs with
  | nil => rfl
  | cons p pairs ih =>
    obtain ⟨slot, s⟩ := p
    have heffect : Clause.effect depth scope (slot.compiled s) =
        some (.write [slot.call (.text s)] none) := by
      cases slot <;> rfl
    rw [List.map_cons, Clause.evaluate_cons, heffect, ih]
    rfl

end Slot

/-- Texts of a host that are embedded in an attribute come out of it as they went in. The attribute
compiles to one clause for each of them without an error, and running it against any documents
makes exactly one call for each, in order, with the key of its slot and the text itself. -/
theorem ClauseList.compile_embedded (pairs : List (Slot × String))
    (h : ∀ p ∈ pairs, p.1.Named) :
    (compile (Slot.attributeText pairs)).diagnostics = [] ∧
    (compile (Slot.attributeText pairs)).clauses.length = pairs.length ∧
    ∀ depth project item layout,
      (compile (Slot.attributeText pairs)).evaluate depth (.template project item layout) =
        some ⟨pairs.map fun p => p.1.call (.text p.2), [], none⟩ := by
  have hcompiled : (pieces (Slot.attributeText pairs)).map Clause.compile =
      pairs.map fun p => (p.1.compiled p.2, none) := by
    rw [Slot.pieces_attributeText h, List.map_map]
    exact List.map_congr_left fun p hp => (h p hp).compile_clause p.2
  have hcompile : compile (Slot.attributeText pairs) =
      ⟨pairs.map fun p => p.1.compiled p.2, []⟩ := by
    rw [compile, hcompiled, List.map_map, List.filterMap_map]
    simp [Function.comp_def]
  rw [hcompile]
  refine ⟨rfl, List.length_map _, fun depth project item layout => ?_⟩
  exact Slot.evaluate_clauses depth _ pairs

/-- Texts that look like the end of their clause, like an escape and like an assignment. -/
theorem ClauseList.compile_embedded_attempts :
    let pairs : List (Slot × String) :=
      [(.attr "data-x", "';$exit=1"), (.style "fill", "\\u003b"), (.content, " k=\"é\"\n")]
    Slot.attributeText pairs =
      "data-x='\\'\\u003b$exit=1';@fill='\\\\u003b';:=' k=\"é\"\n'" ∧
    (∀ p ∈ pairs, p.1.Named) ∧
    ∀ project item layout, (compile (Slot.attributeText pairs)).evaluate 0
        (.template project item layout) =
      some ⟨[.setAttribute "data-x" (.text "';$exit=1"), .setStyle "fill" (.text "\\u003b"),
        .setText (.text " k=\"é\"\n")], [], none⟩ := by
  intro pairs
  have hnamed : ∀ p ∈ pairs, p.1.Named := by
    simp only [pairs, List.forall_mem_cons]
    exact ⟨⟨'d', _, rfl, rfl, List.all_eq_true.1 rfl⟩, ⟨'f', _, rfl, rfl, List.all_eq_true.1 rfl⟩,
      trivial, nofun⟩
  exact ⟨by decide, hnamed, (compile_embedded pairs hnamed).2.2 0⟩

end Timeline
