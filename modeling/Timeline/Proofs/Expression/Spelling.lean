import Timeline.Expression.Resolution
import Timeline.Proofs.Expression.Numeral
import Timeline.Proofs.Expression.Spaced

/-! # Spellings of expressions

Which expressions can be written, and the lists of tokens that write them: with parentheses wherever
the levels of the operators ask for them, and with any others. -/
namespace Timeline

namespace Input

def name : Input → String
  | project => "project"
  | item => "item"
  | layout => "layout"
  | year => "year"
  | month => "month"
  | day => "day"

end Input

namespace UnaryOp

def symbol : UnaryOp → Symbol
  | not => .bang
  | negate => .operator (.binary .subtract)
  | toNumber => .operator (.binary .add)

end UnaryOp

namespace Expr

/-- Is an expression fit to stand inside arrows with the given parameters? -/
def WellFormed (bindings : Bindings) : List String → Expr → Prop
  | _, number x => ∃ literal, Number.Denotes literal x
  | _, text _ | _, bool _ | _, null | _, undefined => True
  | params, input i => bindings.input? i.name = some i ∧ i.name ∉ params
  | params, param name =>
    name ∈ params ∧ IsIdentifier name.toList ∧ Keyword.ofName? name.toList = none
  | params, member object name => object.WellFormed bindings params ∧ IsIdentifier name.toList
  | params, index object key =>
    object.WellFormed bindings params ∧ key.WellFormed bindings params
  | params, unary _ operand => operand.WellFormed bindings params
  | params, binary _ left right | params, logical _ left right =>
    left.WellFormed bindings params ∧ right.WellFormed bindings params
  | params, conditional test yes no =>
    test.WellFormed bindings params ∧ yes.WellFormed bindings params ∧
      no.WellFormed bindings params
  | params, arrow name body =>
    IsIdentifier name.toList ∧ body.WellFormed bindings (name :: params)
  | params, control _ => bindings.allowsControl ∧ "$" ∉ params
  | params, controlOn _ value =>
    (bindings.allowsControl ∧ "$" ∉ params) ∧ value.WellFormed bindings params
  | params, controlWhen _ value check =>
    (bindings.allowsControl ∧ "$" ∉ params) ∧ value.WellFormed bindings params ∧
      check.WellFormed bindings params

lemma wellFormed_operation {bindings : Bindings} {params : List String} {op : Operator}
    {left right : Expr} : (op.toExpr left right).WellFormed bindings params ↔
      left.WellFormed bindings params ∧ right.WellFormed bindings params := by
  cases op <;> exact Iff.rfl

end Expr

def Keyword.token (k : Keyword) : Token := .name k.spelling

def ControlFn.tokens (f : ControlFn) : List Token :=
  [.name ['$'], .symbol .dot, .name f.name.toList]

/-- The level of an operand of a prefix operator. Operators between two operands stand below it. -/
def prefixLevel : Nat := Operator.levels + 1

/-- The level of an expression before a member, an index or a call. -/
def accessLevel : Nat := Operator.levels + 2

/-- The tokens that write an expression where one of at least some level has to stand. Arrows and
conditionals have level zero, an operation has one more than its operator. -/
inductive Spells : Nat → Expr → List Token → Prop
  | group {k e ts} (h : Spells 0 e ts) :
    Spells k e (.symbol .openParen :: ts ++ [.symbol .closeParen])
  | number {k literal x} (h : Number.Denotes literal x) : Spells k (.number x) [.number literal]
  | text {k s quote} (h : quote ∈ ['"', '\'']) :
    Spells k (.text s) [.text quote (escape quote s.toList)]
  | keyword {k} (word : Keyword) : Spells k word.toExpr [word.token]
  | input {k i} : Spells k (.input i) [.name i.name.toList]
  | param {k name} : Spells k (.param name) [.name name.toList]
  | member {k object name ts} (h : Spells accessLevel object ts) :
    Spells k (.member object name) (ts ++ [.symbol .dot, .name name.toList])
  | index {k object key ts us} (hobject : Spells accessLevel object ts) (hkey : Spells 0 key us) :
    Spells k (.index object key) (ts ++ .symbol .openBracket :: us ++ [.symbol .closeBracket])
  | unary {k op operand ts} (hk : k ≤ prefixLevel) (h : Spells prefixLevel operand ts) :
    Spells k (.unary op operand) (.symbol op.symbol :: ts)
  | operation {k op left right ts us} (hk : k ≤ op.level + 1)
    (hleft : Spells (op.level + 1) left ts) (hright : Spells (op.level + 2) right us) :
    Spells k (op.toExpr left right) (ts ++ .symbol (.operator op) :: us)
  | conditional {test yes no ts us vs} (htest : Spells 1 test ts) (hyes : Spells 0 yes us)
    (hno : Spells 0 no vs) :
    Spells 0 (.conditional test yes no) (ts ++ .symbol .question :: us ++ .symbol .colon :: vs)
  | arrow {name body ts} (h : Spells 0 body ts) :
    Spells 0 (.arrow name body) (.name name.toList :: .symbol .arrow :: ts)
  | enclosedArrow {name body ts} (h : Spells 0 body ts) :
    Spells 0 (.arrow name body)
      (.symbol .openParen :: .name name.toList :: .symbol .closeParen :: .symbol .arrow :: ts)
  | control {k f} : Spells k (.control f) (f.tokens ++ [.symbol .openParen, .symbol .closeParen])
  | controlOn {k f value ts} (h : Spells 0 value ts) :
    Spells k (.controlOn f value)
      (f.tokens ++ .symbol .openParen :: ts ++ [.symbol .closeParen])
  | controlWhen {k f value check ts us} (hvalue : Spells 0 value ts) (hcheck : Spells 0 check us) :
    Spells k (.controlWhen f value check)
      (f.tokens ++ .symbol .openParen :: ts ++ .symbol .comma :: us ++ [.symbol .closeParen])

lemma Spells.exists_of_zero {e : Expr} {ts : List Token} (h : Spells 0 e ts) (k : Nat) :
    ∃ us, Spells k e us :=
  ⟨_, .group h⟩

/-- Every well-formed expression can be written at every level. -/
theorem Expr.WellFormed.exists_spells {bindings : Bindings} {params : List String} {e : Expr}
    (h : e.WellFormed bindings params) (k : Nat) : ∃ ts, Spells k e ts := by
  induction e generalizing params k with
  | number x =>
    obtain ⟨literal, hliteral⟩ := h
    exact ⟨_, .number hliteral⟩
  | text s => exact ⟨_, .text (List.mem_cons_self)⟩
  | bool b =>
    cases b with
    | false => exact ⟨_, .keyword .no⟩
    | true => exact ⟨_, .keyword .yes⟩
  | null => exact ⟨_, .keyword .null⟩
  | undefined => exact ⟨_, .keyword .undefined⟩
  | input i => exact ⟨_, .input⟩
  | param name => exact ⟨_, .param⟩
  | member object name ih =>
    obtain ⟨ts, hts⟩ := ih h.1 accessLevel
    exact ⟨_, .member hts⟩
  | index object key ihObject ihKey =>
    obtain ⟨ts, hts⟩ := ihObject h.1 accessLevel
    obtain ⟨us, hus⟩ := ihKey h.2 0
    exact ⟨_, .index hts hus⟩
  | unary op operand ih =>
    obtain ⟨ts, hts⟩ := ih h prefixLevel
    exact (Spells.unary (Nat.zero_le _) hts).exists_of_zero k
  | binary op left right ihLeft ihRight =>
    obtain ⟨ts, hts⟩ := ihLeft h.1 ((Operator.binary op).level + 1)
    obtain ⟨us, hus⟩ := ihRight h.2 ((Operator.binary op).level + 2)
    exact (Spells.operation (Nat.zero_le _) hts hus).exists_of_zero k
  | logical op left right ihLeft ihRight =>
    obtain ⟨ts, hts⟩ := ihLeft h.1 ((Operator.logical op).level + 1)
    obtain ⟨us, hus⟩ := ihRight h.2 ((Operator.logical op).level + 2)
    exact (Spells.operation (Nat.zero_le _) hts hus).exists_of_zero k
  | conditional test yes no ihTest ihYes ihNo =>
    obtain ⟨ts, hts⟩ := ihTest h.1 1
    obtain ⟨us, hus⟩ := ihYes h.2.1 0
    obtain ⟨vs, hvs⟩ := ihNo h.2.2 0
    exact (Spells.conditional hts hus hvs).exists_of_zero k
  | arrow name body ih =>
    obtain ⟨ts, hts⟩ := ih h.2 0
    exact (Spells.arrow hts).exists_of_zero k
  | control f => exact ⟨_, .control⟩
  | controlOn f value ih =>
    obtain ⟨ts, hts⟩ := ih h.2 0
    exact ⟨_, .controlOn hts⟩
  | controlWhen f value check ihValue ihCheck =>
    obtain ⟨ts, hts⟩ := ihValue h.2.1 0
    obtain ⟨us, hus⟩ := ihCheck h.2.2 0
    exact ⟨_, .controlWhen hts hus⟩

namespace Token

def isFinal : Token → Bool
  | number _ | text .. | name _ | symbol .closeParen | symbol .closeBracket => true
  | symbol _ => false

lemma adjacent_of_isFinal {t : Token} (h : t.isFinal) (s : Symbol) : Adjacent t (symbol s) := by
  cases t with
  | number | name => exact ⟨s, rfl⟩
  | text => trivial
  | symbol r =>
    cases r with
    | closeParen | closeBracket => exact .inl rfl
    | _ => cases h

end Token

/-- Tokens that may stand between operators: all of them legible, with no space needed anywhere. -/
structure Phrase (ts : List Token) : Prop where
  legible : ∀ t ∈ ts, t.Legible
  linked : ts.IsChain Token.Adjacent
  initial : ∃ t ∈ ts.head?, t.isInitial
  final : ∃ t ∈ ts.getLast?, t.isFinal

namespace Phrase

variable {ts us : List Token} {t : Token}

lemma single (h : t.Legible) (hinitial : t.isInitial) (hfinal : t.isFinal) : Phrase [t] :=
  ⟨by simpa using h, .singleton t, ⟨t, rfl, hinitial⟩, ⟨t, rfl, hfinal⟩⟩

lemma append (s : Symbol) (h : Phrase ts) (hlegible : ∀ t ∈ us, t.Legible)
    (hlinked : (Token.symbol s :: us).IsChain Token.Adjacent)
    (hfinal : ∃ t ∈ (Token.symbol s :: us).getLast?, t.isFinal) :
    Phrase (ts ++ .symbol s :: us) := by
  obtain ⟨first, hfirst, hinitial⟩ := h.initial
  refine ⟨?_, ?_, ⟨first, ?_, hinitial⟩, ?_⟩
  · intro t ht
    rcases List.mem_append.1 ht with ht | ht
    · exact h.legible t ht
    · rcases List.mem_cons.1 ht with rfl | ht
      · trivial
      · exact hlegible t ht
  · refine List.isChain_append.2 ⟨h.linked, hlinked, ?_⟩
    rintro t ht u ⟨⟩
    obtain ⟨last, hlast, hfinal⟩ := h.final
    cases hlast.symm.trans ht
    exact Token.adjacent_of_isFinal hfinal s
  · simp [Option.mem_def.1 hfirst]
  · obtain ⟨last, hlast, hfinal⟩ := hfinal
    exact ⟨last, by simp [Option.mem_def.1 hlast], hfinal⟩

lemma linked_symbol {s : Symbol} (hs : s ≠ .dot) (h : Phrase us) :
    (Token.symbol s :: us).IsChain Token.Adjacent := by
  obtain ⟨first, hfirst, hinitial⟩ := h.initial
  refine List.isChain_cons.2 ⟨fun t ht => ?_, h.linked⟩
  cases hfirst.symm.trans ht
  exact (Token.adjacent_symbol hs).2 (.inr hinitial)

lemma getLast?_symbol (s : Symbol) (h : Phrase us) :
    ∃ t ∈ (Token.symbol s :: us).getLast?, t.isFinal := by
  obtain ⟨last, hlast, hfinal⟩ := h.final
  exact ⟨last, by simp [List.getLast?_cons, Option.mem_def.1 hlast], hfinal⟩

lemma joined (s : Symbol) (hs : s ≠ .dot) (h : Phrase ts) (h' : Phrase us) :
    Phrase (ts ++ .symbol s :: us) :=
  h.append s h'.legible (h'.linked_symbol hs) (h'.getLast?_symbol s)

lemma before (s : Symbol) (hs : s ≠ .dot) (hinitial : (Token.symbol s).isInitial)
    (h : Phrase us) : Phrase (.symbol s :: us) := by
  refine ⟨?_, h.linked_symbol hs, ⟨_, rfl, hinitial⟩, h.getLast?_symbol s⟩
  intro t ht
  rcases List.mem_cons.1 ht with rfl | ht
  · trivial
  · exact h.legible t ht

lemma after (s : Symbol) (hfinal : (Token.symbol s).isFinal) (h : Phrase ts) :
    Phrase (ts ++ [.symbol s]) :=
  h.append s nofun (.singleton _) ⟨_, rfl, hfinal⟩

lemma member {letters : List Char} (hletters : IsIdentifier letters) (h : Phrase ts) :
    Phrase (ts ++ [.symbol .dot, .name letters]) :=
  h.append .dot (by simpa [Token.Legible] using hletters) (List.isChain_pair.2 ⟨letters, rfl⟩)
    ⟨_, rfl, rfl⟩

lemma call (h : Phrase ts) : Phrase (ts ++ [.symbol .openParen, .symbol .closeParen]) :=
  h.append .openParen (by simp [Token.Legible]) (List.isChain_pair.2 (.inl rfl)) ⟨_, rfl, rfl⟩

lemma group (h : Phrase ts) : Phrase (.symbol .openParen :: ts ++ [.symbol .closeParen]) :=
  (h.before .openParen nofun rfl).after .closeParen rfl

end Phrase

lemma isIdentifier_keyword (k : Keyword) : IsIdentifier k.spelling := by
  cases k <;> exact ⟨_, _, rfl, rfl, List.all_eq_true.1 rfl⟩

lemma isIdentifier_input (i : Input) : IsIdentifier i.name.toList := by
  cases i <;> exact ⟨_, _, rfl, rfl, List.all_eq_true.1 rfl⟩

lemma ControlFn.phrase_tokens (f : ControlFn) : Phrase f.tokens := by
  have hcontrol : Phrase [.name ['$']] := .single ⟨_, _, rfl, rfl, nofun⟩ rfl rfl
  have hname : IsIdentifier f.name.toList := by
    cases f <;> exact ⟨_, _, rfl, rfl, List.all_eq_true.1 rfl⟩
  exact hcontrol.member hname

/-- The tokens of a well-formed expression need no space. -/
theorem Spells.phrase {bindings : Bindings} {params : List String} {k : Nat} {e : Expr}
    {ts : List Token} (h : Spells k e ts) (he : e.WellFormed bindings params) : Phrase ts := by
  induction h generalizing params with
  | group _ ih => exact (ih he).group
  | number h => exact .single h.isNumeral rfl rfl
  | @text k s quote h => exact .single ⟨h, s.toList, rfl⟩ rfl rfl
  | keyword word => exact .single (isIdentifier_keyword word) rfl rfl
  | @input k i => exact .single (isIdentifier_input i) rfl rfl
  | param => exact .single he.2.1 rfl rfl
  | member _ ih => exact (ih he.1).member he.2
  | index _ _ ihObject ihKey =>
    exact ((ihObject he.1).joined .openBracket nofun (ihKey he.2)).after .closeBracket rfl
  | @unary k op _ _ _ _ ih =>
    cases op <;> exact (ih he).before _ nofun rfl
  | operation _ _ _ ihLeft ihRight =>
    obtain ⟨hleft, hright⟩ := Expr.wellFormed_operation.1 he
    exact (ihLeft hleft).joined _ nofun (ihRight hright)
  | conditional _ _ _ ihTest ihYes ihNo =>
    exact ((ihTest he.1).joined .question nofun (ihYes he.2.1)).joined .colon nofun (ihNo he.2.2)
  | arrow _ ih =>
    have hname : Phrase [.name _] := .single he.1 rfl rfl
    exact hname.joined .arrow nofun (ih he.2)
  | enclosedArrow _ ih =>
    have hname : Phrase [.name _] := .single he.1 rfl rfl
    exact hname.group.joined .arrow nofun (ih he.2)
  | @control k f => exact f.phrase_tokens.call
  | @controlOn k f _ _ _ ih =>
    exact (f.phrase_tokens.joined .openParen nofun (ih he.2)).after .closeParen rfl
  | @controlWhen k f _ _ _ _ _ _ ihValue ihCheck =>
    have hvalue := f.phrase_tokens.joined .openParen nofun (ihValue he.2.1)
    exact (hvalue.joined .comma nofun (ihCheck he.2.2)).after .closeParen rfl

end Timeline
