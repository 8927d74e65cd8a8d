/-! # Expressions

The tree of one compiled expression. Names are resolved: a tree only mentions the documents or date
parts it may read and the parameters of the arrows around the place where they stand. -/
namespace Timeline

inductive Input
  | project
  | item
  | layout
  | year
  | month
  | day
  deriving DecidableEq, Repr

/-- The names an expression is compiled against: the documents of a template together with the
control calls, or the parts of a date. -/
inductive Bindings
  | template
  | primeDate
  deriving DecidableEq, Repr

namespace Bindings

def input? : Bindings → String → Option Input
  | template, "project" => some .project
  | template, "item" => some .item
  | template, "layout" => some .layout
  | primeDate, "year" => some .year
  | primeDate, "month" => some .month
  | primeDate, "day" => some .day
  | _, _ => none

def allowsControl : Bindings → Bool
  | template => true
  | primeDate => false

end Bindings

inductive UnaryOp
  | not
  | negate
  | toNumber
  deriving DecidableEq, Repr

inductive BinaryOp
  | add
  | subtract
  | multiply
  | divide
  | remainder
  | less
  | lessOrEqual
  | greater
  | greaterOrEqual
  | equal
  | notEqual
  | identical
  | notIdentical
  deriving DecidableEq, Repr

/-- Operators that evaluate their right operand only if the left one asks for it. -/
inductive LogicalOp
  | and
  | or
  | nullish
  deriving DecidableEq, Repr

/-- The functions of `$`: stop the clause list, stop the whole render pass, or skip the clause. -/
inductive ControlFn
  | stopList
  | stopPass
  | drop
  deriving DecidableEq, Repr

namespace ControlFn

def name : ControlFn → String
  | stopList => "break"
  | stopPass => "exit"
  | drop => "drop"

def ofName? : String → Option ControlFn
  | "break" => some stopList
  | "exit" => some stopPass
  | "drop" => some drop
  | _ => none

end ControlFn

/-- A compiled expression. A control call has at most a value and a check. -/
inductive Expr
  | number (x : Float)
  | text (s : String)
  | bool (b : Bool)
  | null
  | undefined
  | input (i : Input)
  | param (name : String)
  | member (object : Expr) (name : String)
  | index (object key : Expr)
  | unary (op : UnaryOp) (operand : Expr)
  | binary (op : BinaryOp) (left right : Expr)
  | logical (op : LogicalOp) (left right : Expr)
  | conditional (test yes no : Expr)
  | arrow (param : String) (body : Expr)
  | control (f : ControlFn)
  | controlOn (f : ControlFn) (value : Expr)
  | controlWhen (f : ControlFn) (value check : Expr)
  deriving Repr

end Timeline
