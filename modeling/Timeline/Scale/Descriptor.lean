import Timeline.Calendar.Reader
import Timeline.Json
import Timeline.Scale.Measure

/-! # Scale descriptors

One element of the scale as the template describes it: the path to its group, its weight, the texts
of its start and end, and its label. Documents give it as an object, or as an array of the fields.
-/
namespace Timeline

structure ScaleDescriptor (α : Type) where
  pathKey : String
  weight : Option α
  startText : Option String
  endText : Option String
  label : Option String
  deriving DecidableEq, Repr

namespace ScaleDescriptor

section
variable {α : Type}

/-- The keys of the groups from the top level down to the described one. -/
def path (d : ScaleDescriptor α) : List String := (d.pathKey.toList.splitOn '-').map String.ofList

/-- The share of the axis: the weight if it is finite and positive, otherwise one. -/
def unit [Measure α] (d : ScaleDescriptor α) : α :=
  match d.weight with
  | some w => if Measure.isFinite w && Measure.less Measure.zero w then w else Measure.one
  | none => Measure.one

/-- The described start; without one that can be read it is the origin. -/
def start (d : ScaleDescriptor α) : Moment := (d.startText.bind Moment.ofText?).getD .origin

def stop? (d : ScaleDescriptor α) : Option Moment := d.endText.bind Moment.ofText?

end

/-- An optional text: `null` and a missing one are none, anything but a string is refused. -/
def textField? : Option Json → Option (Option String)
  | none | some .null => some none
  | some (.string s) => some (some s)
  | some _ => none

def weightField? : Option Json → Option (Option Float)
  | none | some .null => some none
  | some (.number n) => some (some n.toFloat)
  | some _ => none

def ofFields? (pathKey weight start stop label : Option Json) : Option (ScaleDescriptor Float) :=
  match pathKey with
  | some (.string pathKey) => do
    some ⟨pathKey, ← weightField? weight, ← textField? start, ← textField? stop, ← textField? label⟩
  | _ => none

/-- Reads a descriptor. Members other than the fields are passed over; an array may leave out fields
at its end. -/
def ofJson? : Json → Option (ScaleDescriptor Float)
  | .object members =>
    ofFields? (members.lookup "pathKey") (members.lookup "unitWeight") (members.lookup "start")
      (members.lookup "end") (members.lookup "label")
  | .array items =>
    if 5 < items.length then none
    else ofFields? items[0]? items[1]? items[2]? items[3]? items[4]?
  | _ => none

/-- A member of a written object, unless the field is missing. -/
def member (key : String) (value : Option Json) : List (String × Json) :=
  match value with
  | some v => [(key, v)]
  | none => []

def toJson (d : ScaleDescriptor Float) : Json :=
  .object <|
    ("pathKey", .string d.pathKey) :: member "unitWeight" (d.weight.map Json.ofFloat) ++
      member "start" (d.startText.map Json.string) ++ member "end" (d.endText.map Json.string) ++
      member "label" (d.label.map Json.string)

end ScaleDescriptor

end Timeline
