import Mathlib.Tactic.Common
import Timeline.Expression.Tree

/-! # The parser step by step

What each function of the parser does with the results of the others, for lists of tokens without
the proofs that these get shorter. -/
namespace Timeline.Tree

variable {α : Type}

/-- A reading and what follows it, without the proof that it got shorter. -/
def unbound {p : List Lexeme → Prop} (r : Option (α × { rest : List Lexeme // p rest })) :
    Option (α × List Lexeme) :=
  r.map fun x => (x.1, x.2.1)

lemma unbound_eq_some_iff {p : List Lexeme → Prop}
    {r : Option (α × { rest : List Lexeme // p rest })} {a : α} {rest : List Lexeme} :
    unbound r = some (a, rest) ↔ ∃ h, r = some (a, ⟨rest, h⟩) := by
  rcases r with _ | ⟨b, rest', h'⟩
  · simp [unbound]
  · simp only [unbound, Option.map_some, Option.some.injEq, Prod.mk.injEq]
    constructor
    · rintro ⟨rfl, rfl⟩
      exact ⟨h', rfl, rfl⟩
    · rintro ⟨_, rfl, hrest⟩
      exact ⟨rfl, congrArg Subtype.val hrest⟩

def expression (ts : List Lexeme) : Option (Tree × List Lexeme) := unbound (expression? ts)

def operand (level : Nat) (ts : List Lexeme) : Option (Tree × List Lexeme) :=
  unbound (operand? level ts)

def chain (level : Nat) (left : Tree) (ts : List Lexeme) : Option (Tree × List Lexeme) :=
  unbound (chain? level left ts)

def prefixed (ts : List Lexeme) : Option (Tree × List Lexeme) := unbound (prefixed? ts)

def primary (ts : List Lexeme) : Option (Tree × List Lexeme) := unbound (primary? ts)

def accessors (object : Tree) (ts : List Lexeme) : Option (Tree × List Lexeme) :=
  unbound (accessors? object ts)

/-- The arguments of a call, where its closing parenthesis ends, and what follows it. -/
def arguments (ts : List Lexeme) : Option (List Tree × Nat × List Lexeme) :=
  (arguments? ts).map fun x => (x.1, x.2.1, x.2.2.1)

variable {ts rest rest' rest'' : List Lexeme} {t u : Lexeme} {left right tree test yes no : Tree}

lemma expect?_eq_some (s : Symbol) (ht : t.token = .symbol s) (rest : List Lexeme) :
    ∃ h, expect? s (t :: rest) = some (t.stop, ⟨rest, h⟩) := by
  simp [expect?, ht]

lemma expect?_eq_none {s : Symbol} (h : ∀ t ∈ ts.head?, t.token ≠ .symbol s) :
    expect? s ts = none := by
  cases ts with
  | nil => rfl
  | cons t ts => simp [expect?, h t rfl]

lemma expression_test (harrow : arrowHead? ts = none) (htest : operand 0 ts = some (test, rest))
    (hrest : ∀ t ∈ rest.head?, t.token ≠ .symbol .question) :
    expression ts = some (test, rest) := by
  obtain ⟨h, htest⟩ := unbound_eq_some_iff.1 htest
  rw [expression, expression?, harrow]
  simp only [htest, expect?_eq_none hrest]
  rfl

lemma expression_conditional (harrow : arrowHead? ts = none)
    (htest : operand 0 ts = some (test, t :: rest)) (ht : t.token = .symbol .question)
    (hyes : expression rest = some (yes, u :: rest'))
    (hu : u.token = .symbol .colon) (hno : expression rest' = some (no, rest'')) :
    expression ts = some (.conditional test yes no, rest'') := by
  obtain ⟨h, htest⟩ := unbound_eq_some_iff.1 htest
  obtain ⟨h', hyes⟩ := unbound_eq_some_iff.1 hyes
  obtain ⟨h'', hno⟩ := unbound_eq_some_iff.1 hno
  obtain ⟨_, hquestion⟩ := expect?_eq_some .question ht rest
  obtain ⟨_, hcolon⟩ := expect?_eq_some .colon hu rest'
  rw [expression, expression?, harrow]
  simp only [htest, hquestion, hyes, hcolon, hno]
  rfl

lemma expression_arrow {param : List Char} {body : Lexeme.Rest ts}
    (harrow : arrowHead? ts = some (param, body)) (hbody : expression body.1 = some (tree, rest)) :
    expression ts = some (.arrow param tree, rest) := by
  obtain ⟨h, hbody⟩ := unbound_eq_some_iff.1 hbody
  rw [expression, expression?, harrow]
  simp only [hbody]
  rfl

lemma operand_of_le {level : Nat} (h : Operator.levels ≤ level) (ts : List Lexeme) :
    operand level ts = prefixed ts := by
  rw [operand, operand?, if_neg (Nat.not_lt.2 h), prefixed]

lemma operand_of_lt {level : Nat} (h : level < Operator.levels)
    (hfirst : operand (level + 1) ts = some (tree, rest)) :
    operand level ts = chain level tree rest := by
  obtain ⟨_, hfirst⟩ := unbound_eq_some_iff.1 hfirst
  rw [operand, operand?, if_pos h, chain]
  simp only [hfirst]
  cases chain? level tree rest <;> rfl

lemma chain_stop {level : Nat}
    (h : ∀ t ∈ ts.head?, ∀ op, t.token.operator? = some op → op.level ≠ level) (left : Tree) :
    chain level left ts = some (left, ts) := by
  cases ts with
  | nil => rw [chain, chain?]; rfl
  | cons t after =>
    rw [chain, chain?]
    cases hop : t.token.operator? with
    | none => rfl
    | some op => simp only [h t rfl op hop, if_false]; rfl

lemma chain_operator {op : Operator} (ht : t.token = .symbol (.operator op))
    (hright : operand (op.level + 1) ts = some (right, rest)) (left : Tree) :
    chain op.level left (t :: ts) = chain op.level (.operation op left right) rest := by
  obtain ⟨_, hright⟩ := unbound_eq_some_iff.1 hright
  rw [chain, chain?, chain]
  simp only [ht, Token.operator?, if_true, hright]
  cases chain? op.level (.operation op left right) rest <;> rfl

lemma prefixed_unary {op : UnaryOp} (ht : t.token.unaryOperator? = some op)
    (hoperand : prefixed ts = some (tree, rest)) :
    prefixed (t :: ts) = some (.unary op tree, rest) := by
  obtain ⟨_, hoperand⟩ := unbound_eq_some_iff.1 hoperand
  rw [prefixed, prefixed?]
  simp only [ht, hoperand]
  rfl

lemma prefixed_primary (ht : t.token.unaryOperator? = none)
    (hobject : primary (t :: ts) = some (tree, rest)) :
    prefixed (t :: ts) = accessors tree rest := by
  obtain ⟨_, hobject⟩ := unbound_eq_some_iff.1 hobject
  rw [prefixed, prefixed?, accessors]
  simp only [ht, hobject]
  cases accessors? tree rest <;> rfl

lemma primary_number {literal : List Char} (ht : t.token = .number literal) (ts : List Lexeme) :
    primary (t :: ts) = some (.number literal, ts) := by
  obtain ⟨token, start, stop⟩ := t
  obtain rfl := ht
  rw [primary, primary?]
  rfl

lemma primary_text {quote : Char} {body : List Char} (ht : t.token = .text quote body)
    (ts : List Lexeme) : primary (t :: ts) = some (.text body, ts) := by
  obtain ⟨token, start, stop⟩ := t
  obtain rfl := ht
  rw [primary, primary?]
  rfl

lemma primary_keyword {letters : List Char} {k : Keyword} (ht : t.token = .name letters)
    (hk : Keyword.ofName? letters = some k) (ts : List Lexeme) :
    primary (t :: ts) = some (.keyword k, ts) := by
  obtain ⟨token, start, stop⟩ := t
  obtain rfl := ht
  rw [primary, primary?]
  simp only [hk]
  rfl

lemma primary_name {letters : List Char} (ht : t.token = .name letters)
    (hk : Keyword.ofName? letters = none) (ts : List Lexeme) :
    primary (t :: ts) = some (.name letters ⟨t.start, t.stop - t.start⟩, ts) := by
  obtain ⟨token, start, stop⟩ := t
  obtain rfl := ht
  rw [primary, primary?]
  simp only [hk]
  rfl

lemma primary_group (ht : t.token = .symbol .openParen)
    (hinner : expression ts = some (tree, u :: rest)) (hu : u.token = .symbol .closeParen) :
    primary (t :: ts) = some (.group tree, rest) := by
  obtain ⟨token, start, stop⟩ := t
  obtain rfl := ht
  obtain ⟨_, hinner⟩ := unbound_eq_some_iff.1 hinner
  obtain ⟨_, hclose⟩ := expect?_eq_some .closeParen hu rest
  rw [primary, primary?]
  simp only [hinner, hclose]
  rfl

lemma accessors_member (ht : t.token = .symbol .dot) {key : List Char} (hu : u.token = .name key)
    (object : Tree) (ts : List Lexeme) :
    accessors object (t :: u :: ts) = accessors (.member object key) ts := by
  obtain ⟨token, start, stop⟩ := t
  obtain ⟨token', start', stop'⟩ := u
  obtain rfl := ht
  obtain rfl := hu
  rw [accessors, accessors?, accessors]
  cases accessors? (.member object key) ts <;> rfl

lemma accessors_index (ht : t.token = .symbol .openBracket)
    (hkey : expression ts = some (tree, u :: rest)) (hu : u.token = .symbol .closeBracket)
    (object : Tree) : accessors object (t :: ts) = accessors (.index object tree) rest := by
  obtain ⟨token, start, stop⟩ := t
  obtain rfl := ht
  obtain ⟨_, hkey⟩ := unbound_eq_some_iff.1 hkey
  obtain ⟨_, hclose⟩ := expect?_eq_some .closeBracket hu rest
  rw [accessors, accessors?, accessors]
  simp only [hkey, hclose]
  cases accessors? (.index object tree) rest <;> rfl

lemma accessors_call (ht : t.token = .symbol .openParen) {args : List Tree} {stop : Nat}
    (hargs : arguments ts = some (args, stop, rest)) (object : Tree) :
    accessors object (t :: ts) =
      accessors (.call object args ⟨t.start, stop - t.start⟩) rest := by
  obtain ⟨token, start, stop'⟩ := t
  obtain rfl := ht
  obtain ⟨⟨args, stop, rest, _⟩, heq, ⟨⟩⟩ := Option.map_eq_some_iff.1 hargs
  rw [accessors, accessors?, accessors]
  simp only [heq]
  cases accessors? (.call object args ⟨start, stop - start⟩) rest <;> rfl

lemma accessors_stop (h : ∀ t ∈ ts.head?, t.token ≠ .symbol .dot ∧
    t.token ≠ .symbol .openBracket ∧ t.token ≠ .symbol .openParen) (object : Tree) :
    accessors object ts = some (object, ts) := by
  rw [accessors, accessors?.eq_def]
  split
  · exact absurd rfl (h _ rfl).1
  · exact absurd rfl (h _ rfl).2.1
  · exact absurd rfl (h _ rfl).2.2
  · rfl

lemma arguments_nil (ht : t.token = .symbol .closeParen) (ts : List Lexeme) :
    arguments (t :: ts) = some ([], t.stop, ts) := by
  obtain ⟨_, hclose⟩ := expect?_eq_some .closeParen ht ts
  rw [arguments, arguments?]
  simp only [hclose]
  rfl

lemma arguments_one (hts : ∀ t ∈ ts.head?, t.token ≠ .symbol .closeParen)
    (hfirst : expression ts = some (tree, t :: rest)) (ht : t.token = .symbol .closeParen) :
    arguments ts = some ([tree], t.stop, rest) := by
  obtain ⟨_, hfirst⟩ := unbound_eq_some_iff.1 hfirst
  obtain ⟨_, hclose⟩ := expect?_eq_some .closeParen ht rest
  rw [arguments, arguments?]
  simp only [expect?_eq_none hts, hfirst]
  rw [moreArguments?]
  simp only [hclose]
  rfl

lemma arguments_two (hts : ∀ t ∈ ts.head?, t.token ≠ .symbol .closeParen)
    (hfirst : expression ts = some (left, t :: rest)) (ht : t.token = .symbol .comma)
    (hsecond : expression rest = some (right, u :: rest')) (hu : u.token = .symbol .closeParen) :
    arguments ts = some ([left, right], u.stop, rest') := by
  obtain ⟨_, hfirst⟩ := unbound_eq_some_iff.1 hfirst
  obtain ⟨_, hsecond⟩ := unbound_eq_some_iff.1 hsecond
  obtain ⟨_, hcomma⟩ := expect?_eq_some .comma ht rest
  obtain ⟨_, hclose⟩ := expect?_eq_some .closeParen hu rest'
  have hopen : expect? .closeParen (t :: rest) = none := expect?_eq_none (by simp [ht])
  rw [arguments, arguments?]
  simp only [expect?_eq_none hts, hfirst]
  rw [moreArguments?]
  simp only [hopen, hcomma, hsecond]
  rw [moreArguments?]
  simp only [hclose]
  rfl

end Timeline.Tree
