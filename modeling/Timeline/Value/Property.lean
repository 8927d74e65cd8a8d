import Timeline.Number.Binary64
import Timeline.Text.Digits
import Timeline.Value.Basic

/-! # Properties

Reading `object.key`. Only `undefined` and `null` have no properties; what a value lacks is
`undefined`. -/
namespace Timeline

/-- The two values without properties. -/
inductive Nullish
  | undefined
  | null
  deriving DecidableEq, Repr

namespace Nullish

def name : Nullish → String
  | undefined => "undefined"
  | null => "null"

end Nullish

/-- The one error of evaluation: a property was read where there is none. -/
structure EvalError where
  property : String
  target : Nullish
  deriving DecidableEq, Repr

namespace EvalError

def message (e : EvalError) : String :=
  "cannot read property `" ++ e.property ++ "` of " ++ e.target.name

def code : String := "roadmap::eval::cannot_read_property"

end EvalError

/-- Indexes are below this bound, two to the power 64. -/
def indexBound : Nat := 18446744073709551616

/-- The index that a key writes: digits, perhaps after a plus sign. -/
def indexOfKey? (key : String) : Option Nat :=
  let ds :=
    match key.toList with
    | '+' :: ds => ds
    | ds => ds
  if ds.isEmpty ∨ ¬ ds.all Char.isDigit ∨ indexBound ≤ Text.ofDigits ds then none
  else some (Text.ofDigits ds)

namespace Value

def count (n : Nat) : Value := number (Number.Binary64.ofInt n)

/-- A property of an array or an object. -/
def dataProperty (node : DataNode) (key : String) : Value :=
  match node.content with
  | .object members =>
    match members.lookup key with
    | some content => ofNode (node.child (.key key) content)
    | none => undefined
  | .array items =>
    if key = "length" then count items.length
    else
      match indexOfKey? key with
      | none => undefined
      | some i =>
        match items[i]? with
        | some content => ofNode (node.child (.item i) content)
        | none => undefined
  | _ => undefined

/-- A property of a text: its length or one of its characters. -/
def textProperty (s : String) (key : String) : Value :=
  let cs := s.toList
  if key = "length" then count cs.length
  else
    match (indexOfKey? key).bind (cs[·]?) with
    | some c => text (String.ofList [c])
    | none => undefined

def property (key : String) : Value → Except EvalError Value
  | undefined => .error ⟨key, .undefined⟩
  | null => .error ⟨key, .null⟩
  | data node => .ok (dataProperty node key)
  | text s => .ok (textProperty s key)
  | signal _ inner => .ok (if key = "value" then inner else undefined)
  | bool _ | number _ | function .. => .ok undefined

end Value

end Timeline
