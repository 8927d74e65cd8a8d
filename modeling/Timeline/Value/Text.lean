import Timeline.Number.Notation
import Timeline.Text.Blank
import Timeline.Value.Basic

/-! # Values as text, as numbers and as documents

An array is the texts of its items with commas between them, where `null` has the empty text. Text
is a number if it writes one; the empty text is zero. -/
namespace Timeline

namespace Json

def boolText (b : Bool) : String := if b then "true" else "false"

mutual

/-- The text of a document as an expression sees it. -/
def text : Json → String
  | null => "null"
  | bool b => boolText b
  | number n => Number.text n.toFloat
  | string s => s
  | array items => ",".intercalate (itemTexts items)
  | object _ => "[object Object]"

def itemTexts : List Json → List String
  | [] => []
  | null :: items => "" :: itemTexts items
  | item :: items => text item :: itemTexts items

end

end Json

/-- The number that a text stands for. Letters other than the mark of an exponent rule a number out,
but for the names of the infinities. -/
def numberOfText (s : String) : Float :=
  let cs := Text.trim s.toList
  if cs.isEmpty then 0.0
  else if cs = "Infinity".toList ∨ cs = "+Infinity".toList then Number.Binary64.infinity
  else if cs = "-Infinity".toList then -Number.Binary64.infinity
  else if cs.any fun c => c.isAlpha && c != 'e' && c != 'E' then Number.Binary64.nan
  else
    match Number.Decimal.read? cs with
    | some d => d.toFloat
    | none => Number.Binary64.nan

namespace Value

def toText : Value → String
  | undefined => "undefined"
  | null => "null"
  | bool b => Json.boolText b
  | number x => Number.text x
  | text s => s
  | data node => node.content.text
  | function _ param _ _ => param ++ " => ..."
  | signal _ inner => inner.toText

def toNumber : Value → Float
  | undefined => Number.Binary64.nan
  | null => 0.0
  | bool b => if b then 1.0 else 0.0
  | number x => x
  | text s => numberOfText s
  | data node =>
    match node.content with
    | .array items => numberOfText (Json.array items).text
    | _ => Number.Binary64.nan
  | function .. | signal .. => Number.Binary64.nan

/-- Whole numbers below this bound, two to the power 53, become integers of a document. -/
def integerBound : Nat := 9007199254740992

/-- The number of a document that a value stands for; the infinities and what is no number have
none. -/
def jsonOfNumber (x : Float) : Json :=
  match Number.Binary64.meaning x with
  | .finite exact =>
    if exact.isInteger ∧ exact.truncate.natAbs < integerBound then .number (.integer exact.truncate)
    else .number (.float x)
  | _ => .null

def toJson : Value → Json
  | undefined | null | function .. => .null
  | bool b => .bool b
  | number x => jsonOfNumber x
  | text s => .string s
  | data node => node.content
  | signal _ inner => inner.toJson

end Value

end Timeline
