import Timeline.Value.Text

/-! # Equality, order and addition of values -/
namespace Timeline.Value

/-- `===`: the same plain value, the same node of one document, or functions of one arrow. -/
def identical : Value → Value → Bool
  | undefined, undefined => true
  | null, null => true
  | bool a, bool b => a == b
  | number x, number y => x == y
  | text s, text t => s == t
  | data m, data n => m.samePlace n
  | function site _ _ _, function site' _ _ _ => site == site'
  | _, _ => false

/-- Is a text equal to a number or a text once both are of one type? -/
def textEquals (s : String) : Value → Bool
  | number x => numberOfText s == x
  | text t => s == t
  | _ => false

/-- `==`: `undefined` and `null` equal one another and nothing else; a truth value and the pair of a
number and a text are compared as numbers; data is compared as text with a number or a text. -/
def looselyEquals (a b : Value) : Bool :=
  if a.isNullish || b.isNullish then a.isNullish && b.isNullish
  else
    match a, b with
    | bool _, _ | _, bool _ | number _, text _ | text _, number _ => a.toNumber == b.toNumber
    | data _, number _ | data _, text _ => textEquals a.toText b
    | number _, data _ | text _, data _ => textEquals b.toText a
    | _, _ => a.identical b

/-- Values that are ordered as text against one another. -/
def isTextual : Value → Bool
  | text _ | data _ => true
  | _ => false

def compareNumbers (x y : Float) : Option Ordering :=
  if x < y then some .lt else if x == y then some .eq else if y < x then some .gt else none

/-- The order of two values; there is none next to what is not a number. -/
def compare (a b : Value) : Option Ordering :=
  if a.isTextual && b.isTextual then some (Ord.compare a.toText b.toText)
  else compareNumbers a.toNumber b.toNumber

/-- `+`: the sum of two primitive values, the joined texts of any others. -/
def add (a b : Value) : Value :=
  if a.isPrimitive && b.isPrimitive then number (a.toNumber + b.toNumber)
  else text (a.toText ++ b.toText)

/-- Equality for the host, which looks into documents and signals. -/
def same : Value → Value → Bool
  | data m, data n => m.content.same n.content
  | signal stop a, signal stop' b => stop == stop' && a.same b
  | a, b => a.identical b

end Timeline.Value
