import Timeline.Expression.Grammar

/-! # What was expected where reading stopped

A run of the grammar over a text records which rules failed at the furthest place that any rule
failed at. A rule stands for the rules inside it that failed at the same place, unless exactly one
did: then that one is kept. -/
namespace Timeline

/-- The furthest byte offset at which a rule failed, and the rules that failed there in order. -/
structure Expected where
  offset : Nat
  rules : List Rule
  deriving DecidableEq, Repr

namespace Expected

def none : Expected := ⟨0, []⟩

def countAt (e : Expected) (offset : Nat) : Nat := if e.offset = offset then e.rules.length else 0

/-- Records that `r` failed at `offset`, where `before` failures were recorded when it was tried. -/
def record (e : Expected) (r : Rule) (offset before : Nat) : Expected :=
  if e.countAt offset = before + 1 then e
  else if e.offset < offset then ⟨offset, [r]⟩
  else if e.offset = offset then ⟨offset, e.rules.take before ++ [r]⟩
  else e

/-- A place in a text: its byte offset and the text from there on. -/
structure Place where
  offset : Nat
  rest : List Char

namespace Place

def skipSpaces (p : Place) : Place :=
  ⟨p.offset + (p.rest.takeWhile Token.isSpace).length, p.rest.dropWhile Token.isSpace⟩

def word? (p : Place) (spelling : List Char) : Option Place :=
  (Text.after? spelling p.rest).map fun rest => ⟨p.offset + Text.byteLength spelling, rest⟩

def char? (p : Place) (holds : Char → Bool) : Option Place :=
  match p.rest with
  | [] => Option.none
  | c :: rest => if holds c then some ⟨p.offset + c.utf8Size, rest⟩ else Option.none

end Place

/-- Matches a pattern at a place, with at most `depth` patterns inside one another. -/
def run (depth : Nat) (mode : Mode) (pattern : Pattern) (p : Place) (e : Expected) :
    Option Place × Expected :=
  match depth with
  | 0 => (Option.none, e)
  | depth + 1 =>
    let skip (p : Place) : Place := if mode = .loose then p.skipSpaces else p
    match pattern with
    | .word spelling => (p.word? spelling, e)
    | .char holds => (p.char? holds, e)
    | .finish => (if p.rest.isEmpty then some p else Option.none, e)
    | .sequence first second =>
      match run depth mode first p e with
      | (Option.none, e) => (Option.none, e)
      | (some p, e) => run depth mode second (skip p) e
    | .choice first second =>
      match run depth mode first p e with
      | (Option.none, e) => run depth mode second p e
      | done => done
    | .optional part =>
      match run depth mode part p e with
      | (Option.none, e) => (some p, e)
      | done => done
    | .many part =>
      match run depth mode part p e with
      | (Option.none, e) => (some p, e)
      | (some p, e) => run depth mode (.more part) p e
    | .more part =>
      match run depth mode part (skip p) e with
      | (Option.none, e) => (some p, e)
      | (some p, e) => run depth mode (.more part) p e
    | .absent part =>
      match run depth mode part p e with
      | (Option.none, e) => (some p, e)
      | (some _, e) => (Option.none, e)
    | .rule r =>
      let before := e.countAt p.offset
      match run depth r.mode r.body p e with
      | (Option.none, e) =>
        (Option.none, if mode = .silent then e else e.record r p.offset before)
      | done => done

/-- More patterns than can stand inside one another in a run over the text. -/
def depthFor (cs : List Char) : Nat := 100 * (cs.length + 2)

def ofText (s : String) : Expected :=
  (run (depthFor s.toList) .loose (.rule .expression) ⟨0, s.toList⟩ none).2

def accepts (s : String) : Bool :=
  (run (depthFor s.toList) .loose (.rule .expression) ⟨0, s.toList⟩ none).1.isSome

/-- Alternatives as a message lists them. -/
def enumerate : List String → String
  | [] => ""
  | [a] => a
  | [a, b] => a ++ " or " ++ b
  | names => ", ".intercalate names.dropLast ++ ", or " ++ names.getLastD ""

/-- The recorded rules, each once and in the order of the grammar. -/
def label (e : Expected) : String :=
  "expected " ++ enumerate ((Rule.all.filter (e.rules.contains ·)).map Rule.name)

end Expected

end Timeline
