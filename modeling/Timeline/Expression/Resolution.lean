import Timeline.Expression.Error
import Timeline.Number.Decimal
import Timeline.Text.Escape

/-! # Resolution of names

Turns a parse tree into an expression. A name is a parameter of an arrow around it, an input, one of
two numbers, or an error; the first error met from left to right is the one reported. -/
namespace Timeline

/-- The number that a literal is. A literal is always a decimal
(`Number.Decimal.exists_read?_of_isNumeral`), so the second case is not met and is no error. -/
def numberOf (literal : List Char) : Float :=
  match Number.Decimal.read? literal with
  | some d => d.toFloat
  | none => Number.Binary64.nan

namespace Keyword

def toExpr : Keyword → Expr
  | yes => .bool true
  | no => .bool false
  | null => .null
  | undefined => .undefined

end Keyword

namespace Operator

def toExpr : Operator → Expr → Expr → Expr
  | logical op => .logical op
  | binary op => .binary op

end Operator

namespace Tree

def resolveName (bindings : Bindings) (params : List String) (name : String) (span : Span) :
    Except CompileError Expr :=
  if params.contains name then .ok (.param name)
  else
    match bindings.input? name with
    | some input => .ok (.input input)
    | none =>
      if name = "NaN" then .ok (.number Number.Binary64.nan)
      else if name = "Infinity" then .ok (.number Number.Binary64.infinity)
      else if name = "$" then .error (.invalidControlUse span)
      else .error (.unknownName name bindings span)

/-- The control function that a callee names: a member of `$` outside parentheses, where control is
allowed and no parameter is called `$`. -/
def controlFn? (bindings : Bindings) (params : List String) : Tree → Option ControlFn
  | member (name ['$'] _) key =>
    if bindings.allowsControl ∧ ¬ params.contains "$" then ControlFn.ofName? (String.ofList key)
    else none
  | _ => none

/-- A control call with its resolved arguments, of which there may be two. -/
def controlCall (f : ControlFn) (span : Span) : List Expr → Except CompileError Expr
  | [] => .ok (.control f)
  | [value] => .ok (.controlOn f value)
  | [value, check] => .ok (.controlWhen f value check)
  | arguments => .error (.tooManyArguments f arguments.length span)

mutual

/-- Resolves a tree inside arrows with the given parameters. Of a call that is no control call only
the callee is looked at. -/
def resolve (bindings : Bindings) (params : List String) : Tree → Except CompileError Expr
  | number literal => .ok (.number (numberOf literal))
  | text body => .ok (.text (String.ofList (Text.unescape body)))
  | keyword k => .ok k.toExpr
  | name letters span => resolveName bindings params (String.ofList letters) span
  | group inner => resolve bindings params inner
  | member object key => do
    let object ← resolve bindings params object
    .ok (.member object (String.ofList key))
  | index object key => do
    let object ← resolve bindings params object
    let key ← resolve bindings params key
    .ok (.index object key)
  | call callee arguments span =>
    match controlFn? bindings params callee with
    | some f => do
      let arguments ← resolveAll bindings params arguments
      controlCall f span arguments
    | none => do
      let _ ← resolve bindings params callee
      .error (.unsupportedCall span)
  | unary op operand => do
    let operand ← resolve bindings params operand
    .ok (.unary op operand)
  | operation op left right => do
    let left ← resolve bindings params left
    let right ← resolve bindings params right
    .ok (op.toExpr left right)
  | conditional test yes no => do
    let test ← resolve bindings params test
    let yes ← resolve bindings params yes
    let no ← resolve bindings params no
    .ok (.conditional test yes no)
  | arrow param body => do
    let body ← resolve bindings (String.ofList param :: params) body
    .ok (.arrow (String.ofList param) body)

def resolveAll (bindings : Bindings) (params : List String) :
    List Tree → Except CompileError (List Expr)
  | [] => .ok []
  | tree :: trees => do
    let first ← resolve bindings params tree
    let others ← resolveAll bindings params trees
    .ok (first :: others)

end

end Tree

namespace Expr

def compile (bindings : Bindings) (s : String) : Except CompileError Expr :=
  match Tree.ofText? s with
  | some tree => tree.resolve bindings []
  | none => .error (.malformed (Expected.ofText s))

end Expr

end Timeline
