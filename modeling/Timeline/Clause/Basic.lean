import Timeline.Expression.Resolution
import Timeline.Text.Blank
import Timeline.Value.Basic

/-! # Clauses

A dynamic attribute holds clauses between semicolons. A clause is an expression, or a key, `=` and
an expression; the key says where the value goes. A clause whose expression does not compile stays
in the list and does nothing. -/
namespace Timeline

inductive ControlName
  | visible
  | stopList
  | stopPass
  deriving DecidableEq, Repr

namespace ControlName

def ofKey? : String → Option ControlName
  | "$show" => some visible
  | "$break" => some stopList
  | "$exit" => some stopPass
  | _ => none

end ControlName

/-- Where the value of a clause goes. -/
inductive Target
  /-- A value without a key. -/
  | none
  | attr (key : String)
  | style (property : String)
  | text (key : String)
  | control (key : String)
  deriving DecidableEq, Repr

namespace Target

def ofKey (key : List Char) : Target :=
  match key with
  | [] => none
  | '@' :: property => style (String.ofList property)
  | '$' :: _ => control (String.ofList key)
  | ':' :: _ => text (String.ofList key)
  | _ => attr (String.ofList key)

/-- The key of the target, without the mark of a style property. -/
def key : Target → String
  | none => ""
  | attr key | style key | text key | control key => key

def controlName? : Target → Option ControlName
  | control key => ControlName.ofKey? key
  | _ => Option.none

end Target

/-- What is done to a node with a value. -/
inductive Setter
  | attr (key : String)
  | style (property : String)
  | text
  /-- Removes the node on a falsy value. -/
  | visible
  /-- Stops on a truthy value. -/
  | stop (s : Stop)
  deriving DecidableEq, Repr

namespace ControlName

def setter : ControlName → Setter
  | visible => .visible
  | stopList => .stop .list
  | stopPass => .stop .pass

end ControlName

namespace Target

def setter? : Target → Option Setter
  | none => Option.none
  | attr key => some (.attr key)
  | style property => some (.style property)
  | text _ => some .text
  | control key => (ControlName.ofKey? key).map ControlName.setter

end Target

/-- One clause: its target, its expression if that compiled, and its text. -/
structure Clause where
  target : Target
  program : Option Expr
  source : String
  deriving Repr

namespace Clause

def isInert (c : Clause) : Bool := c.program.isNone

def setter? (c : Clause) : Option Setter := if c.isInert then none else c.target.setter?

/-- Is `=` part of a comparison or an arrow, given the character before it and the text after it? -/
def isJoined (before : Option Char) (after : List Char) : Bool :=
  (match before with
    | some c => c == '=' || c == '!' || c == '<' || c == '>'
    | none => false) ||
  (match after with
    | '=' :: _ | '>' :: _ => true
    | _ => false)

/-- The text before and after the `=` of an assignment. Texts in quotes are passed over, as are the
operators with `=` in them. `before` is the character before the text, `quote` the open quote. -/
def splitFrom (before : Option Char) (quote : Option Char) :
    List Char → Option (List Char × List Char)
  | [] => none
  | c :: rest =>
    match quote with
    | some q =>
      if c = '\\' then
        match rest with
        | [] => none
        | d :: rest => (splitFrom (some d) quote rest).map fun (k, e) => (c :: d :: k, e)
      else
        let quote := if c = q then none else some q
        (splitFrom (some c) quote rest).map fun (k, e) => (c :: k, e)
    | none =>
      if c = '=' ∧ ¬ isJoined before rest then some ([], rest)
      else
        let quote := if c = '\'' ∨ c = '"' then some c else none
        (splitFrom (some c) quote rest).map fun (k, e) => (c :: k, e)

/-- The key and the expression of a clause; without an assignment the key is empty. -/
def split (cs : List Char) : List Char × List Char := (splitFrom none none cs).getD ([], cs)

/-- Compiles the text of one clause without spaces around it. -/
def compile (source : List Char) : Clause × Option CompileError :=
  let (key, expression) := split source
  let target := Target.ofKey (Text.trim key)
  match Expr.compile .template (String.ofList (Text.trim expression)) with
  | .ok e => (⟨target, some e, String.ofList source⟩, none)
  | .error error => (⟨target, none, String.ofList source⟩, some error)

end Clause

/-- The clauses of one dynamic attribute and the errors of those that did not compile, in order. -/
structure ClauseList where
  clauses : List Clause
  diagnostics : List CompileError
  deriving Repr

namespace ClauseList

/-- The texts of the clauses: what stands between semicolons, without spaces around it, unless that
is nothing. -/
def pieces (text : String) : List (List Char) :=
  ((text.toList.splitOn ';').map Text.trim).filter fun piece => ¬ piece.isEmpty

def compile (text : String) : ClauseList :=
  let compiled := (pieces text).map Clause.compile
  ⟨compiled.map (·.1), compiled.filterMap (·.2)⟩

end ClauseList

end Timeline
