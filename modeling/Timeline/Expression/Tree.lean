import Timeline.Expression.Token

/-! # Parse trees

The reading of an expression before its names are resolved. Arrows and `?:` bind loosest, then the
levels of the operators between two operands, all grouping to the left, then prefix operators, then
member, index and call. Every step gives back fewer tokens than it was given. -/
namespace Timeline

/-- A range of bytes of the text of an expression. -/
structure Span where
  start : Nat
  length : Nat
  deriving DecidableEq, Repr

inductive Keyword
  | yes
  | no
  | null
  | undefined
  deriving DecidableEq, Repr

namespace Keyword

def spelling : Keyword → List Char
  | yes => ['t', 'r', 'u', 'e']
  | no => ['f', 'a', 'l', 's', 'e']
  | null => ['n', 'u', 'l', 'l']
  | undefined => ['u', 'n', 'd', 'e', 'f', 'i', 'n', 'e', 'd']

def ofName? (name : List Char) : Option Keyword :=
  [yes, no, null, undefined].find? fun k => k.spelling == name

end Keyword

/-- A parse tree. A name keeps the place where it stands, a call that of its arguments with the
parentheses around them. -/
inductive Tree
  | number (literal : List Char)
  | text (body : List Char)
  | keyword (k : Keyword)
  | name (letters : List Char) (span : Span)
  | group (inner : Tree)
  | member (object : Tree) (key : List Char)
  | index (object key : Tree)
  | call (callee : Tree) (arguments : List Tree) (span : Span)
  | unary (op : UnaryOp) (operand : Tree)
  | operation (op : Operator) (left right : Tree)
  | conditional (test yes no : Tree)
  | arrow (param : List Char) (body : Tree)
  deriving Repr

namespace Operator

/-- How tightly an operator binds; a higher level binds tighter. -/
def level : Operator → Nat
  | .logical .or | .logical .nullish => 0
  | .logical .and => 1
  | .binary .identical | .binary .notIdentical | .binary .equal | .binary .notEqual => 2
  | .binary .less | .binary .lessOrEqual | .binary .greater | .binary .greaterOrEqual => 3
  | .binary .add | .binary .subtract => 4
  | .binary .multiply | .binary .divide | .binary .remainder => 5

/-- One more than the level of the tightest operator. -/
def levels : Nat := 6

theorem level_lt (op : Operator) : op.level < levels := by
  rcases op with ⟨⟨⟩⟩ | ⟨⟨⟩⟩ <;> decide

end Operator

namespace Token

def operator? : Token → Option Operator
  | symbol (.operator op) => some op
  | _ => none

def unaryOperator? : Token → Option UnaryOp
  | symbol .bang => some .not
  | symbol (.operator (.binary .subtract)) => some .negate
  | symbol (.operator (.binary .add)) => some .toNumber
  | _ => none

end Token

/-- What is left of the tokens `ts` after at least one of them. -/
abbrev Lexeme.Rest (ts : List Lexeme) : Type := { rest : List Lexeme // rest.length < ts.length }

namespace Tree

/-- The parameter of an arrow at the front, and its body. -/
def arrowHead? : (ts : List Lexeme) → Option (List Char × Lexeme.Rest ts)
  | ⟨.name param, _, _⟩ :: ⟨.symbol .arrow, _, _⟩ :: rest =>
    some (param, ⟨rest, by simp only [List.length_cons]; omega⟩)
  | ⟨.symbol .openParen, _, _⟩ :: ⟨.name param, _, _⟩ :: ⟨.symbol .closeParen, _, _⟩ ::
      ⟨.symbol .arrow, _, _⟩ :: rest =>
    some (param, ⟨rest, by simp only [List.length_cons]; omega⟩)
  | _ => none

def expect? (s : Symbol) : (ts : List Lexeme) → Option (Nat × Lexeme.Rest ts)
  | [] => none
  | t :: rest => if t.token = .symbol s then some (t.stop, ⟨rest, by simp⟩) else none

mutual

/-- An arrow, or a conditional of two operands of the loosest level. -/
def expression? (ts : List Lexeme) : Option (Tree × Lexeme.Rest ts) :=
  match arrowHead? ts with
  | some (param, ⟨body, _⟩) =>
    match expression? body with
    | none => none
    | some (body, ⟨rest, _⟩) => some (.arrow param body, ⟨rest, by omega⟩)
  | none =>
    match operand? 0 ts with
    | none => none
    | some (test, ⟨rest, _⟩) =>
      match expect? .question rest with
      | none => some (test, ⟨rest, by omega⟩)
      | some (_, ⟨rest, _⟩) =>
        match expression? rest with
        | none => none
        | some (yes, ⟨rest, _⟩) =>
          match expect? .colon rest with
          | none => none
          | some (_, ⟨rest, _⟩) =>
            match expression? rest with
            | none => none
            | some (no, ⟨rest, _⟩) => some (.conditional test yes no, ⟨rest, by omega⟩)
termination_by (ts.length, Operator.levels + 4)

/-- An operand of operators looser than `level`: a chain of operators of that level, or a prefixed
operand beyond the tightest one. -/
def operand? (level : Nat) (ts : List Lexeme) : Option (Tree × Lexeme.Rest ts) :=
  if level < Operator.levels then
    match operand? (level + 1) ts with
    | none => none
    | some (first, ⟨rest, _⟩) =>
      match chain? level first rest with
      | none => none
      | some (tree, ⟨rest, _⟩) => some (tree, ⟨rest, by omega⟩)
  else prefixed? ts
termination_by (ts.length, Operator.levels - level + 3)

/-- Operators of one level with their right operands, grouped to the left. -/
def chain? (level : Nat) (left : Tree) (ts : List Lexeme) :
    Option (Tree × { rest : List Lexeme // rest.length ≤ ts.length }) :=
  match ts with
  | [] => some (left, ⟨[], by simp⟩)
  | t :: after =>
    match t.token.operator? with
    | some op =>
      if op.level = level then
        match operand? (level + 1) after with
        | none => none
        | some (right, ⟨rest, _⟩) =>
          match chain? level (.operation op left right) rest with
          | none => none
          | some (tree, ⟨rest, _⟩) => some (tree, ⟨rest, by simp only [List.length_cons]; omega⟩)
      else some (left, ⟨t :: after, by simp⟩)
    | none => some (left, ⟨t :: after, by simp⟩)
termination_by (ts.length, 0)

/-- Prefix operators before an operand with its accessors. -/
def prefixed? (ts : List Lexeme) : Option (Tree × Lexeme.Rest ts) :=
  match ts with
  | [] => none
  | t :: after =>
    match t.token.unaryOperator? with
    | some op =>
      match prefixed? after with
      | none => none
      | some (operand, ⟨rest, _⟩) =>
        some (.unary op operand, ⟨rest, by simp only [List.length_cons]; omega⟩)
    | none =>
      match primary? (t :: after) with
      | none => none
      | some (object, ⟨rest, _⟩) =>
        match accessors? object rest with
        | none => none
        | some (tree, ⟨rest, _⟩) => some (tree, ⟨rest, by omega⟩)
termination_by (ts.length, 2)

/-- A literal, a name or an expression in parentheses. -/
def primary? (ts : List Lexeme) : Option (Tree × Lexeme.Rest ts) :=
  match ts with
  | ⟨.number literal, _, _⟩ :: rest => some (.number literal, ⟨rest, by simp⟩)
  | ⟨.text _ body, _, _⟩ :: rest => some (.text body, ⟨rest, by simp⟩)
  | ⟨.name letters, start, stop⟩ :: rest =>
    match Keyword.ofName? letters with
    | some k => some (.keyword k, ⟨rest, by simp⟩)
    | none => some (.name letters ⟨start, stop - start⟩, ⟨rest, by simp⟩)
  | ⟨.symbol .openParen, _, _⟩ :: rest =>
    match expression? rest with
    | none => none
    | some (inner, ⟨rest, _⟩) =>
      match expect? .closeParen rest with
      | none => none
      | some (_, ⟨rest, _⟩) => some (.group inner, ⟨rest, by simp only [List.length_cons]; omega⟩)
  | _ => none
termination_by (ts.length, 1)

/-- Members, indexes and calls after an operand. -/
def accessors? (object : Tree) (ts : List Lexeme) :
    Option (Tree × { rest : List Lexeme // rest.length ≤ ts.length }) :=
  match ts with
  | ⟨.symbol .dot, _, _⟩ :: ⟨.name key, _, _⟩ :: rest =>
    match accessors? (.member object key) rest with
    | none => none
    | some (tree, ⟨rest, _⟩) => some (tree, ⟨rest, by simp only [List.length_cons]; omega⟩)
  | ⟨.symbol .openBracket, _, _⟩ :: rest =>
    match expression? rest with
    | none => none
    | some (key, ⟨rest, _⟩) =>
      match expect? .closeBracket rest with
      | none => none
      | some (_, ⟨rest, _⟩) =>
        match accessors? (.index object key) rest with
        | none => none
        | some (tree, ⟨rest, _⟩) => some (tree, ⟨rest, by simp only [List.length_cons]; omega⟩)
  | ⟨.symbol .openParen, start, _⟩ :: rest =>
    match arguments? rest with
    | none => none
    | some (arguments, stop, ⟨rest, _⟩) =>
      match accessors? (.call object arguments ⟨start, stop - start⟩) rest with
      | none => none
      | some (tree, ⟨rest, _⟩) => some (tree, ⟨rest, by simp only [List.length_cons]; omega⟩)
  | ts => some (object, ⟨ts, Nat.le_refl _⟩)
termination_by (ts.length, 0)

/-- The arguments of a call after its opening parenthesis, and where the closing one ends. -/
def arguments? (ts : List Lexeme) : Option (List Tree × Nat × Lexeme.Rest ts) :=
  match expect? .closeParen ts with
  | some (stop, rest) => some ([], stop, rest)
  | none =>
    match expression? ts with
    | none => none
    | some (first, ⟨rest, _⟩) =>
      match moreArguments? rest with
      | none => none
      | some (others, stop, ⟨rest, _⟩) => some (first :: others, stop, ⟨rest, by omega⟩)
termination_by (ts.length, Operator.levels + 5)

/-- The arguments after the first one, each behind a comma. -/
def moreArguments? (ts : List Lexeme) : Option (List Tree × Nat × Lexeme.Rest ts) :=
  match expect? .closeParen ts with
  | some (stop, rest) => some ([], stop, rest)
  | none =>
    match expect? .comma ts with
    | none => none
    | some (_, ⟨rest, _⟩) =>
      match expression? rest with
      | none => none
      | some (next, ⟨rest, _⟩) =>
        match moreArguments? rest with
        | none => none
        | some (others, stop, ⟨rest, _⟩) => some (next :: others, stop, ⟨rest, by omega⟩)
termination_by (ts.length, 0)

end

def ofTokens? (ts : List Lexeme) : Option Tree :=
  match expression? ts with
  | some (tree, ⟨[], _⟩) => some tree
  | _ => none

def ofText? (s : String) : Option Tree := (Lexeme.ofText? s).bind ofTokens?

end Tree

end Timeline
