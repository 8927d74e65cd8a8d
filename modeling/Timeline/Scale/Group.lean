import Timeline.Scale.Descriptor

/-! # Groups

The display tree of a scale. Descriptors are attached one after another along their paths; a group
that a descriptor names and that has no groups below it is a leaf. Leaves are numbered in the order
of their descriptors. -/
namespace Timeline

structure ScaleGroup where
  key : String
  /-- The label of the descriptor, which `text` goes back to. -/
  defaultText : Option String
  text : Option String
  /-- The last descriptor that names the group. -/
  descriptor : Option Nat
  /-- The number of the leaf, if the group is one. -/
  leaf : Option Nat
  children : List ScaleGroup
  deriving Repr

namespace ScaleGroup

def new (key : String) : ScaleGroup := ⟨key, none, none, none, none, []⟩

/-- Changes the first group with a key, which is put at the end if there is none. -/
def modify (key : String) (change : ScaleGroup → ScaleGroup) : List ScaleGroup → List ScaleGroup
  | [] => [change (new key)]
  | g :: level => if g.key = key then change g :: level else g :: modify key change level

/-- Names a group by a descriptor. The groups below it stay. -/
def describe (index : Nat) (label : Option String) (g : ScaleGroup) : ScaleGroup :=
  { g with descriptor := some index, defaultText := some (label.getD ""),
           text := some (label.getD "") }

/-- Attaches a descriptor along its path. -/
def attach (index : Nat) (label : Option String) : List String → List ScaleGroup → List ScaleGroup
  | [], level => level
  | [key], level => modify key (describe index label) level
  | key :: rest, level =>
    modify key (fun g => { g with children := attach index label rest g.children }) level

def ofDescriptors {α : Type} (ds : List (ScaleDescriptor α)) : List ScaleGroup :=
  ds.zipIdx.foldl (fun level (d, index) => attach index d.label d.path level) []

mutual

/-- The descriptors of the leaves from a group down, in the order of the tree. -/
def leafDescriptors : ScaleGroup → List Nat
  | ⟨_, _, _, descriptor, _, children⟩ =>
    match descriptor, children with
    | some index, [] => [index]
    | _, children => allLeafDescriptors children

def allLeafDescriptors : List ScaleGroup → List Nat
  | [] => []
  | g :: level => leafDescriptors g ++ allLeafDescriptors level

end

mutual

/-- Numbers the leaves from a group down by the place of their descriptor in a list. -/
def number (order : List Nat) : ScaleGroup → ScaleGroup
  | ⟨key, defaultText, text, descriptor, _, children⟩ =>
    ⟨key, defaultText, text, descriptor,
      if children.isEmpty then descriptor.bind (order.idxOf? ·) else none,
      numberAll order children⟩

def numberAll (order : List Nat) : List ScaleGroup → List ScaleGroup
  | [] => []
  | g :: level => number order g :: numberAll order level

end

def find? (key : String) (level : List ScaleGroup) : Option ScaleGroup :=
  level.find? fun g => g.key == key

def at? (level : List ScaleGroup) : List String → Option ScaleGroup
  | [] => none
  | [key] => find? key level
  | key :: rest => (find? key level).bind fun g => at? g.children rest

end ScaleGroup

end Timeline
