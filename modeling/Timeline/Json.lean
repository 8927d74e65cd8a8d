import Timeline.Number.Binary64

/-! # Documents

JSON documents as templates and hosts hand them in. A member name stands once in an object; the
order of the members has no meaning. -/
namespace Timeline

/-- A number of a document. One written without fraction and exponent stays an integer. -/
inductive JsonNumber
  | integer (n : Int)
  | float (x : Float)
  deriving Repr

inductive Json
  | null
  | bool (b : Bool)
  | number (n : JsonNumber)
  | string (s : String)
  | array (items : List Json)
  | object (members : List (String × Json))
  deriving Repr, Inhabited

namespace JsonNumber

def toFloat : JsonNumber → Float
  | integer n => Number.Binary64.ofInt n
  | float x => x

/-- An integer is never the same number as a float. -/
def same : JsonNumber → JsonNumber → Bool
  | integer m, integer n => m == n
  | float x, float y => x == y
  | _, _ => false

end JsonNumber

namespace Json

/-- A float, or `null` where the number has no written form. -/
def ofFloat (x : Float) : Json := if x.isFinite then .number (.float x) else .null

def member? (key : String) : Json → Option Json
  | object members => members.lookup key
  | _ => none

/-- The members with one of them set to a new value. -/
def setIn (key : String) (value : Json) : List (String × Json) → List (String × Json)
  | [] => [(key, value)]
  | (k, v) :: rest => if k = key then (key, value) :: rest else (k, v) :: setIn key value rest

/-- Sets a member; what is not an object is replaced by one. -/
def set (document : Json) (key : String) (value : Json) : Json :=
  match document with
  | object members => object (setIn key value members)
  | _ => object [(key, value)]

mutual

/-- Do two documents have the same content? -/
def same : Json → Json → Bool
  | null, null => true
  | bool a, bool b => a == b
  | number m, number n => m.same n
  | string s, string t => s == t
  | array xs, array ys => sameItems xs ys
  | object ms, object ns => ms.length == ns.length && sameMembers ms ns
  | _, _ => false

def sameItems : List Json → List Json → Bool
  | [], [] => true
  | x :: xs, y :: ys => same x y && sameItems xs ys
  | _, _ => false

def sameMembers : List (String × Json) → List (String × Json) → Bool
  | [], _ => true
  | (key, x) :: ms, ns =>
    (match ns.lookup key with
      | some y => same x y
      | none => false) && sameMembers ms ns

end

end Json

end Timeline
