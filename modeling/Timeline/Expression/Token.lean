import Timeline.Expression.Basic
import Timeline.Text.Blank
import Timeline.Text.Digits

/-! # Tokens of an expression

Text is cut into numbers, quoted texts, names and symbols, each as long as possible, with space,
tab, carriage return and line feed between them. The characters of a token are kept, so the tokens
and the spaces between them spell the text. -/
namespace Timeline

/-- An operator between two operands. -/
inductive Operator
  | logical (op : LogicalOp)
  | binary (op : BinaryOp)
  deriving DecidableEq, Repr

/-- A token that is neither a number, a text nor a name. -/
inductive Symbol
  | arrow
  | question
  | colon
  | comma
  | dot
  | openParen
  | closeParen
  | openBracket
  | closeBracket
  | bang
  | operator (op : Operator)
  deriving DecidableEq, Repr

namespace Symbol

def spelling : Symbol → List Char
  | arrow => ['=', '>']
  | question => ['?']
  | colon => [':']
  | comma => [',']
  | dot => ['.']
  | openParen => ['(']
  | closeParen => [')']
  | openBracket => ['[']
  | closeBracket => [']']
  | bang => ['!']
  | operator (.logical .or) => ['|', '|']
  | operator (.logical .nullish) => ['?', '?']
  | operator (.logical .and) => ['&', '&']
  | operator (.binary .identical) => ['=', '=', '=']
  | operator (.binary .notIdentical) => ['!', '=', '=']
  | operator (.binary .equal) => ['=', '=']
  | operator (.binary .notEqual) => ['!', '=']
  | operator (.binary .lessOrEqual) => ['<', '=']
  | operator (.binary .greaterOrEqual) => ['>', '=']
  | operator (.binary .less) => ['<']
  | operator (.binary .greater) => ['>']
  | operator (.binary .add) => ['+']
  | operator (.binary .subtract) => ['-']
  | operator (.binary .multiply) => ['*']
  | operator (.binary .divide) => ['/']
  | operator (.binary .remainder) => ['%']

/-- Every symbol, each before those that its spelling begins with. -/
def all : List Symbol :=
  [operator (.binary .identical), operator (.binary .notIdentical), operator (.binary .equal),
    operator (.binary .notEqual), arrow, operator (.binary .lessOrEqual),
    operator (.binary .greaterOrEqual), operator (.binary .less), operator (.binary .greater),
    operator (.logical .or), operator (.logical .nullish), operator (.logical .and), question, bang,
    operator (.binary .add), operator (.binary .subtract), operator (.binary .multiply),
    operator (.binary .divide), operator (.binary .remainder), colon, comma, dot, openParen,
    closeParen, openBracket, closeBracket]

def read? (cs : List Char) : Option (Symbol × List Char) :=
  all.findSome? fun s => (Text.after? s.spelling cs).map (s, ·)

theorem spelling_ne_nil (s : Symbol) : s.spelling ≠ [] := by
  rcases s with _ | _ | _ | _ | _ | _ | _ | _ | _ | _ | ⟨⟨⟨⟩⟩ | ⟨⟨⟩⟩⟩ <;> simp [spelling]

theorem eq_of_read?_eq_some {cs rest : List Char} {s : Symbol} (h : read? cs = some (s, rest)) :
    cs = s.spelling ++ rest := by
  obtain ⟨t, -, ht⟩ := List.exists_of_findSome?_eq_some h
  obtain ⟨r, hr, he⟩ := Option.map_eq_some_iff.1 ht
  obtain ⟨rfl, rfl⟩ := Prod.mk.inj he
  exact Text.after?_eq_some_iff.1 hr

end Symbol

/-- A token. A text keeps its quote and the characters between the quotes as they are written. -/
inductive Token
  | number (literal : List Char)
  | text (quote : Char) (body : List Char)
  | name (letters : List Char)
  | symbol (s : Symbol)
  deriving DecidableEq, Repr

namespace Token
open Text

def spelling : Token → List Char
  | number literal => literal
  | text quote body => quote :: body ++ [quote]
  | name letters => letters
  | symbol s => s.spelling

def isSpace (c : Char) : Bool := c == ' ' || c == '\t' || c == '\r' || c == '\n'

def isNameStart (c : Char) : Bool := c.isAlpha || c == '_' || c == '$'

def isNamePart (c : Char) : Bool := c.isAlphanum || c == '_' || c == '$'

/-- A point and at least one digit. -/
def fraction? : List Char → Option (List Char × List Char)
  | '.' :: cs =>
    match digits cs with
    | ([], _) => none
    | (ds, rest) => some ('.' :: ds, rest)
  | _ => none

def sign : List Char → List Char × List Char
  | '+' :: cs => (['+'], cs)
  | '-' :: cs => (['-'], cs)
  | cs => ([], cs)

/-- The letter `e`, an optional sign and at least one digit. -/
def exponent? : List Char → Option (List Char × List Char)
  | [] => none
  | mark :: cs =>
    if mark = 'e' ∨ mark = 'E' then
      match digits (sign cs).2 with
      | ([], _) => none
      | (ds, rest) => some (mark :: (sign cs).1 ++ ds, rest)
    else none

/-- An optional part, which is empty where it does not stand. -/
def optional (part? : List Char → Option (List Char × List Char)) (cs : List Char) :
    List Char × List Char :=
  (part? cs).getD ([], cs)

/-- Digits with an optional fraction, or a fraction alone. -/
def significand? (cs : List Char) : Option (List Char × List Char) :=
  match digits cs with
  | ([], _) => fraction? cs
  | (ds, rest) => some (ds ++ (optional fraction? rest).1, (optional fraction? rest).2)

def readNumber? (cs : List Char) : Option (List Char × List Char) :=
  (significand? cs).map fun (ds, rest) =>
    (ds ++ (optional exponent? rest).1, (optional exponent? rest).2)

/-- The characters up to the closing quote and what follows it. A backslash takes the next character
with it. -/
def readBody? (quote : Char) : List Char → Option (List Char × List Char)
  | [] => none
  | '\\' :: c :: rest => (readBody? quote rest).map fun (body, rest) => ('\\' :: c :: body, rest)
  | c :: rest =>
    if c = quote then some ([], rest)
    else if c = '\\' then none
    else (readBody? quote rest).map fun (body, rest) => (c :: body, rest)

def read? (cs : List Char) : Option (Token × List Char) :=
  match readNumber? cs with
  | some (literal, rest) => some (number literal, rest)
  | none =>
    match cs with
    | [] => none
    | c :: rest =>
      if c = '"' ∨ c = '\'' then (readBody? c rest).map fun (body, rest) => (text c body, rest)
      else if isNameStart c then
        some (name (c :: rest.takeWhile isNamePart), rest.dropWhile isNamePart)
      else (Symbol.read? cs).map fun (s, rest) => (symbol s, rest)

theorem sign_append (cs : List Char) : cs = (sign cs).1 ++ (sign cs).2 := by
  unfold sign
  split <;> rfl

theorem fraction?_append {cs ds rest : List Char} (h : fraction? cs = some (ds, rest)) :
    cs = ds ++ rest ∧ ds ≠ [] := by
  unfold fraction? at h
  split at h
  · split at h
    · exact nomatch h
    · next hd =>
      obtain ⟨rfl, rfl⟩ := Prod.mk.inj (Option.some.inj h)
      exact ⟨congrArg ('.' :: ·) (digits_append hd), nofun⟩
  · exact nomatch h

theorem exponent?_append {cs ds rest : List Char} (h : exponent? cs = some (ds, rest)) :
    cs = ds ++ rest := by
  unfold exponent? at h
  split at h
  · exact nomatch h
  · split at h
    · split at h
      · exact nomatch h
      · next hd =>
        obtain ⟨rfl, rfl⟩ := Prod.mk.inj (Option.some.inj h)
        rw [List.cons_append, List.cons_append, List.append_assoc, ← digits_append hd,
          ← sign_append]
    · exact nomatch h

theorem optional_append {part? : List Char → Option (List Char × List Char)} {cs : List Char}
    (h : ∀ ds rest, part? cs = some (ds, rest) → cs = ds ++ rest) :
    cs = (optional part? cs).1 ++ (optional part? cs).2 := by
  unfold optional
  cases he : part? cs with
  | none => rfl
  | some r => exact h r.1 r.2 he

theorem significand?_append {cs ds rest : List Char} (h : significand? cs = some (ds, rest)) :
    cs = ds ++ rest ∧ ds ≠ [] := by
  unfold significand? at h
  split at h
  · exact fraction?_append h
  · next ds' _ hne hd =>
    obtain ⟨rfl, rfl⟩ := Prod.mk.inj (Option.some.inj h)
    rw [List.append_assoc, ← optional_append fun _ _ he => (fraction?_append he).1,
      ← digits_append hd]
    exact ⟨rfl, by simpa using fun he => absurd he hne⟩

theorem readNumber?_append {cs literal rest : List Char}
    (h : readNumber? cs = some (literal, rest)) : cs = literal ++ rest ∧ literal ≠ [] := by
  obtain ⟨⟨ds, r⟩, hs, he⟩ := Option.map_eq_some_iff.1 h
  obtain ⟨rfl, rfl⟩ := Prod.mk.inj he
  obtain ⟨happ, hne⟩ := significand?_append hs
  rw [List.append_assoc, ← optional_append fun _ _ he => exponent?_append he]
  exact ⟨happ, by simp [hne]⟩

theorem readBody?_append {quote : Char} {cs body rest : List Char}
    (h : readBody? quote cs = some (body, rest)) : cs = body ++ quote :: rest := by
  fun_induction readBody? quote cs generalizing body rest with
  | case1 => exact nomatch h
  | case2 c cs ih =>
    obtain ⟨⟨b, r⟩, hb, he⟩ := Option.map_eq_some_iff.1 h
    obtain ⟨rfl, rfl⟩ := Prod.mk.inj he
    simp [ih hb]
  | case3 =>
    obtain ⟨rfl, rfl⟩ := Prod.mk.inj (Option.some.inj h)
    rfl
  | case4 => exact nomatch h
  | case5 c cs _ _ _ ih =>
    obtain ⟨⟨b, r⟩, hb, he⟩ := Option.map_eq_some_iff.1 h
    obtain ⟨rfl, rfl⟩ := Prod.mk.inj he
    simp [ih hb]

/-- Reading loses no character, and a token has at least one. -/
theorem read?_append {cs rest : List Char} {t : Token} (h : read? cs = some (t, rest)) :
    cs = t.spelling ++ rest ∧ t.spelling ≠ [] := by
  unfold read? at h
  split at h
  · next hn =>
    obtain ⟨rfl, rfl⟩ := Prod.mk.inj (Option.some.inj h)
    exact readNumber?_append hn
  · split at h
    · exact nomatch h
    · next c cs _ =>
      split at h
      · obtain ⟨⟨b, r⟩, hb, he⟩ := Option.map_eq_some_iff.1 h
        obtain ⟨rfl, rfl⟩ := Prod.mk.inj he
        simp [spelling, readBody?_append hb]
      · split at h
        · obtain ⟨rfl, rfl⟩ := Prod.mk.inj (Option.some.inj h)
          exact ⟨congrArg (c :: ·) List.takeWhile_append_dropWhile.symm, nofun⟩
        · obtain ⟨⟨s, r⟩, hs, he⟩ := Option.map_eq_some_iff.1 h
          obtain ⟨rfl, rfl⟩ := Prod.mk.inj he
          exact ⟨Symbol.eq_of_read?_eq_some hs, Symbol.spelling_ne_nil s⟩

theorem read?_shorter {cs rest : List Char} {t : Token} (h : read? cs = some (t, rest)) :
    rest.length < cs.length := by
  obtain ⟨rfl, hne⟩ := read?_append h
  have := List.length_pos_iff.2 hne
  simp only [List.length_append]
  omega

end Token

/-- A token with the byte offsets where it starts and where it ends. -/
structure Lexeme where
  token : Token
  start : Nat
  stop : Nat
  deriving DecidableEq, Repr

namespace Lexeme

/-- The tokens of a text that starts at byte `offset`, or nothing where some character is part of no
token. -/
def scan? (offset : Nat) (cs : List Char) : Option (List Lexeme) :=
  match cs with
  | [] => some []
  | c :: rest =>
    if Token.isSpace c then scan? (offset + c.utf8Size) rest
    else
      match _h : Token.read? (c :: rest) with
      | none => none
      | some (t, rest) =>
        let stop := offset + Text.byteLength t.spelling
        (scan? stop rest).map (⟨t, offset, stop⟩ :: ·)
termination_by cs.length
decreasing_by
  · simp
  · exact Token.read?_shorter _h

def ofText? (s : String) : Option (List Lexeme) := scan? 0 s.toList

end Lexeme

end Timeline
