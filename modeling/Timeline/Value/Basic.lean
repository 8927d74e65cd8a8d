import Timeline.Expression.Basic
import Timeline.Json

/-! # Values

What an expression computes. Arrays and objects stay nodes of the document they were read from and
are told apart by their place; functions are told apart by the place of their arrow in the program.
-/
namespace Timeline

/-- A step from a node of a document to one of its children. -/
inductive Step
  | key (name : String)
  | item (index : Nat)
  deriving DecidableEq, Repr

/-- A node of a document: which document, the steps to it with the last one first, and what is
there. -/
structure DataNode where
  document : Nat
  path : List Step
  content : Json
  deriving Repr

namespace DataNode

def root (document : Nat) (content : Json) : DataNode := ⟨document, [], content⟩

def child (node : DataNode) (step : Step) (content : Json) : DataNode :=
  ⟨node.document, step :: node.path, content⟩

def samePlace (a b : DataNode) : Bool := a.document == b.document && a.path == b.path

end DataNode

/-- How far a stop reaches: the clause list, or the whole render pass. -/
inductive Stop
  | list
  | pass
  deriving DecidableEq, Repr

mutual

inductive Value
  | undefined
  | null
  | bool (b : Bool)
  | number (x : Float)
  | text (s : String)
  | data (node : DataNode)
  /-- An arrow with the place where it stands in its program and the parameters around it. -/
  | function (site : List Nat) (param : String) (body : Expr) (captured : Env)
  /-- A stop on its way out of the expression, with the value that it carries. -/
  | signal (stop : Stop) (inner : Value)

/-- The parameters of the arrows around an expression, the innermost one outside. -/
inductive Env
  | empty
  | bind (outer : Env) (param : String) (value : Value)

end

instance : Inhabited Value := ⟨.undefined⟩

namespace Env

/-- The value of the innermost parameter with a name. -/
def lookup? (name : String) : Env → Option Value
  | empty => none
  | bind outer param value => if param = name then some value else outer.lookup? name

def names : Env → List String
  | empty => []
  | bind outer param _ => outer.names ++ [param]

end Env

namespace Value

/-- What stands at a node: a scalar becomes a plain value. -/
def ofNode (node : DataNode) : Value :=
  match node.content with
  | .null => null
  | .bool b => bool b
  | .number n => number n.toFloat
  | .string s => text s
  | .array _ | .object _ => data node

def ofDocument (document : Nat) (content : Json) : Value := ofNode (.root document content)

def typeName : Value → String
  | undefined => "undefined"
  | null => "null"
  | bool _ => "boolean"
  | number _ => "number"
  | text _ => "string"
  | data _ | signal .. => "object"
  | function .. => "function"

def isTruthy : Value → Bool
  | undefined | null => false
  | bool b => b
  | number x => x != 0.0 && !x.isNaN
  | text s => !s.isEmpty
  | data _ | function .. | signal .. => true

def isNullish : Value → Bool
  | undefined | null => true
  | _ => false

/-- Values that are added as numbers. -/
def isPrimitive : Value → Bool
  | undefined | null | bool _ | number _ => true
  | _ => false

end Value

end Timeline
