import Timeline.Scale.Group

/-! # Display texts

An overlay gives new texts to groups, position by position: a bare text, or a text and entries for
the groups below. An entry may be left out, and a level may be shorter or longer than its overlay.
-/
namespace Timeline

inductive DisplayEntry
  | text (s : String)
  | group (text : Option String) (entries : List (Option DisplayEntry))
  deriving Repr

namespace DisplayEntry

mutual

def applyTo : DisplayEntry → ScaleGroup → ScaleGroup
  | text s, g => { g with text := some s }
  | group s entries, g =>
    { g with text := s.or g.text, children := overlay entries g.children }

def overlay : List (Option DisplayEntry) → List ScaleGroup → List ScaleGroup
  | [], level => level
  | _ :: _, [] => []
  | none :: entries, g :: level => g :: overlay entries level
  | some entry :: entries, g :: level => applyTo entry g :: overlay entries level

end

mutual

/-- Reads an entry: a string, or an object whose members may be missing. -/
def ofJson? : Json → Option DisplayEntry
  | .string s => some (text s)
  | .object members => do
    let text ← ScaleDescriptor.textField? (members.lookup "text")
    let entries ← subGroup? members
    some (group text entries)
  | _ => none

/-- Reads the entries for the groups below from the members of an object. -/
def subGroup? : List (String × Json) → Option (List (Option DisplayEntry))
  | [] => some []
  | (key, value) :: members =>
    if key = "subGroup" then
      match value with
      | .array items => ofItems? items
      | _ => none
    else subGroup? members

/-- Reads the entries of a level, where `null` leaves one out. -/
def ofItems? : List Json → Option (List (Option DisplayEntry))
  | [] => some []
  | .null :: items => (ofItems? items).map (none :: ·)
  | item :: items => do
    let entry ← ofJson? item
    let entries ← ofItems? items
    some (some entry :: entries)

end

def overlayOfJson? : Json → Option (List (Option DisplayEntry))
  | .array items => ofItems? items
  | _ => none

def optionOfJson? : Json → Option (Option DisplayEntry)
  | .null => some none
  | json => (ofJson? json).map some

mutual

/-- Writes an entry; a missing text and an empty list of entries are left out. -/
def toJson : DisplayEntry → Json
  | text s => .string s
  | group s entries =>
    .object <|
      ScaleDescriptor.member "text" (s.map Json.string) ++
        match entries with
        | [] => []
        | entries => [("subGroup", .array (toItems entries))]

def toItems : List (Option DisplayEntry) → List Json
  | [] => []
  | none :: entries => .null :: toItems entries
  | some entry :: entries => toJson entry :: toItems entries

end

/-- Writes an entry, or `null` where it is left out. -/
def optionToJson : Option DisplayEntry → Json
  | none => .null
  | some entry => toJson entry

end DisplayEntry

namespace ScaleGroup

mutual

/-- Gives a group and those below it their default texts. -/
def restoreText : ScaleGroup → ScaleGroup
  | ⟨key, defaultText, _, descriptor, leaf, children⟩ =>
    ⟨key, defaultText, defaultText, descriptor, leaf, restoreTexts children⟩

def restoreTexts : List ScaleGroup → List ScaleGroup
  | [] => []
  | g :: level => restoreText g :: restoreTexts level

end

end ScaleGroup

end Timeline
