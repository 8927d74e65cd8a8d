import Timeline.Value.Comparison
import Timeline.Value.Property

/-! # Evaluation

An expression is evaluated by recursion on its tree; calling the predicate of a control call goes
through a parameter, which is then tied to itself with a bound on how deep calls may nest. -/
namespace Timeline

/-- What the inputs of an expression read. -/
inductive Scope
  | template (project item layout : Json)
  | date (year : Int) (month day : Nat)
  deriving Repr

namespace Scope

/-- An input of the other kind of scope reads as `undefined`. -/
def read : Scope → Input → Value
  | template project _ _, .project => .ofDocument 0 project
  | template _ item _, .item => .ofDocument 1 item
  | template _ _ layout, .layout => .ofDocument 2 layout
  | date year _ _, .year => .number (Number.Binary64.ofInt year)
  | date _ month _, .month => .number (Number.Binary64.ofInt month)
  | date _ _ day, .day => .number (Number.Binary64.ofInt day)
  | _, _ => .undefined

end Scope

inductive Interrupt
  | drop
  | error (e : EvalError)
  /-- More calls are nested than the bound allows. -/
  | tooDeep
  deriving DecidableEq, Repr

/-- The call of an arrow, given by its site, parameter, body and captured parameters, with an
argument. -/
abbrev Call := List Nat → String → Expr → Env → Value → Except Interrupt Value

namespace ControlFn

/-- Does a control call fire? Without a check it fires on a falsy value; with one, when the check is
identical to the value or is a predicate that holds of it. -/
def fires (call : Call) (value : Value) : Option Value → Except Interrupt Bool
  | none => .ok !value.isTruthy
  | some check =>
    if value.identical check then .ok true
    else
      match check with
      | .function site param body captured =>
        match call site param body captured value with
        | .ok result => .ok result.isTruthy
        | .error i => .error i
      | _ => .ok false

def fire : ControlFn → Value → Except Interrupt Value
  | stopList, value => .ok (.signal .list value)
  | stopPass, value => .ok (.signal .pass value)
  | drop, _ => .error .drop

/-- The result of a control call; one that does not fire gives its value. -/
def settle (f : ControlFn) (call : Call) (value : Value) (check : Option Value) :
    Except Interrupt Value :=
  match fires call value check with
  | .ok true => f.fire value
  | .ok false => .ok value
  | .error i => .error i

end ControlFn

namespace UnaryOp

def apply : UnaryOp → Value → Value
  | not, v => .bool !v.isTruthy
  | negate, v => .number (-v.toNumber)
  | toNumber, v => .number v.toNumber

end UnaryOp

namespace BinaryOp

def apply : BinaryOp → Value → Value → Value
  | add, l, r => l.add r
  | subtract, l, r => .number (l.toNumber - r.toNumber)
  | multiply, l, r => .number (l.toNumber * r.toNumber)
  | divide, l, r => .number (l.toNumber / r.toNumber)
  | remainder, l, r => .number (Number.Binary64.remainder l.toNumber r.toNumber)
  | less, l, r => .bool (l.compare r == some .lt)
  | lessOrEqual, l, r => .bool (l.compare r == some .lt || l.compare r == some .eq)
  | greater, l, r => .bool (l.compare r == some .gt)
  | greaterOrEqual, l, r => .bool (l.compare r == some .gt || l.compare r == some .eq)
  | equal, l, r => .bool (l.looselyEquals r)
  | notEqual, l, r => .bool !l.looselyEquals r
  | identical, l, r => .bool (l.identical r)
  | notIdentical, l, r => .bool !l.identical r

end BinaryOp

namespace LogicalOp

def takesRight : LogicalOp → Value → Bool
  | and, l => l.isTruthy
  | or, l => !l.isTruthy
  | nullish, l => l.isNullish

end LogicalOp

namespace Expr

/-- Evaluates an expression that stands at a site of its program, numbering the children of a node
from zero. -/
def evalWith (call : Call) (scope : Scope) (env : Env) (site : List Nat) :
    Expr → Except Interrupt Value
  | number x => .ok (.number x)
  | text s => .ok (.text s)
  | bool b => .ok (.bool b)
  | null => .ok .null
  | undefined => .ok .undefined
  | input i => .ok (scope.read i)
  | param key => .ok ((env.lookup? key).getD .undefined)
  | member object key => do
    let object ← evalWith call scope env (0 :: site) object
    (object.property key).mapError .error
  | index object key => do
    let object ← evalWith call scope env (0 :: site) object
    let key ← evalWith call scope env (1 :: site) key
    (object.property key.toText).mapError .error
  | unary op operand => do
    let v ← evalWith call scope env (0 :: site) operand
    .ok (op.apply v)
  | binary op left right => do
    let l ← evalWith call scope env (0 :: site) left
    let r ← evalWith call scope env (1 :: site) right
    .ok (op.apply l r)
  | logical op left right => do
    let l ← evalWith call scope env (0 :: site) left
    if op.takesRight l then evalWith call scope env (1 :: site) right else .ok l
  | conditional test yes no => do
    let t ← evalWith call scope env (0 :: site) test
    if t.isTruthy then evalWith call scope env (1 :: site) yes
    else evalWith call scope env (2 :: site) no
  | arrow parameter body => .ok (.function site parameter body env)
  | control f => f.settle call .undefined none
  | controlOn f value => do
    let v ← evalWith call scope env (0 :: site) value
    f.settle call v none
  | controlWhen f value check => do
    let v ← evalWith call scope env (0 :: site) value
    let c ← evalWith call scope env (1 :: site) check
    f.settle call v (some c)

/-- Calls an arrow, with at most `depth` calls inside one another. -/
def callWithin (scope : Scope) : Nat → Call
  | 0 => fun _ _ _ _ _ => .error .tooDeep
  | depth + 1 => fun site param body captured argument =>
    evalWith (callWithin scope depth) scope (captured.bind param argument) (0 :: site) body

def evalWithin (depth : Nat) (scope : Scope) (e : Expr) : Except Interrupt Value :=
  evalWith (callWithin scope depth) scope .empty [] e

end Expr

/-- What a program gives: a value, a value together with a stop, or a clause to skip. -/
inductive Outcome
  | value (v : Value)
  | drop
  | stop (s : Stop) (v : Value)

namespace Outcome

/-- A signal is a stop with the value that it carries. -/
def ofValue : Value → Outcome
  | .signal s v => stop s v
  | v => value v

def stop? : Outcome → Option Stop
  | stop s _ => some s
  | value _ | drop => none

/-- The value that a setter gets, unless the clause is skipped. -/
def value? : Outcome → Option Value
  | value v | stop _ v => some v
  | drop => none

end Outcome

namespace Expr

/-- Runs a program; nothing comes of a run that nests more than `depth` calls. -/
def run (depth : Nat) (scope : Scope) (e : Expr) : Option (Except EvalError Outcome) :=
  match e.evalWithin depth scope with
  | .ok v => some (.ok (.ofValue v))
  | .error .drop => some (.ok .drop)
  | .error (.error e) => some (.error e)
  | .error .tooDeep => none

end Expr

end Timeline
