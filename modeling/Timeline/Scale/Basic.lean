import Timeline.Scale.Display
import Timeline.Scale.Leaf

/-! # Time scales

The groups of a scale, its leaves and their layout. A scale is built from descriptors; it remembers
the leaf that the last question was answered with. -/
namespace Timeline

structure TimeScale (α : Type) where
  groups : List ScaleGroup
  leaves : List (ScaleLeaf α)
  unitCount : α
  size : α
  /-- The leaf where the next search starts. -/
  hint : Nat
  leaves_ne_nil : leaves ≠ []

namespace TimeScale

variable {α : Type}

def firstLeaf (s : TimeScale α) : ScaleLeaf α := s.leaves.head s.leaves_ne_nil

def lastLeaf (s : TimeScale α) : ScaleLeaf α := s.leaves.getLast s.leaves_ne_nil

def start (s : TimeScale α) : Moment := s.firstLeaf.start

def stop (s : TimeScale α) : Moment := s.lastLeaf.stop

/-- Gives the leaves new starts and the last one a new end, if none ends before it starts. -/
def setStarts (s : TimeScale α) (starts : List Moment) (stop? : Option Moment) :
    Except ScaleError (TimeScale α) :=
  match stop? with
  | none => .error .missingEnd
  | some stop => do
    let bounds ← ScaleLeaf.bounds 0 starts stop
    .ok { s with
      leaves := ScaleLeaf.setAllBounds s.leaves bounds
      hint := 0
      leaves_ne_nil := by
        rw [← List.length_pos_iff, ScaleLeaf.length_setAllBounds, List.length_pos_iff]
        exact s.leaves_ne_nil }

variable [Measure α]

def setSize (s : TimeScale α) (size : α) : TimeScale α :=
  { s with
    leaves := ScaleLeaf.place (ScaleLeaf.unitSize size s.unitCount) Measure.zero s.leaves
    size := size
    leaves_ne_nil := by
      rw [← List.length_pos_iff, ScaleLeaf.length_place, List.length_pos_iff]
      exact s.leaves_ne_nil }

/-- The starts and the end that the template describes. -/
def restore (s : TimeScale α) : Except ScaleError (TimeScale α) :=
  s.setStarts (s.leaves.map (·.defaultStart)) s.lastLeaf.defaultStop

/-- The leaves of a list of descriptors, in the order of the descriptors. -/
def leafOrder (groups : List ScaleGroup) : List Nat :=
  (ScaleGroup.allLeafDescriptors groups).mergeSort (· ≤ ·)

def build (descriptors : List (ScaleDescriptor α)) (size : α) : Except ScaleError (TimeScale α) :=
  let groups := ScaleGroup.ofDescriptors descriptors
  let order := leafOrder groups
  let leaves := (order.filterMap (descriptors[·]?)).map ScaleLeaf.ofDescriptor
  if h : leaves = [] then .error .noScaleItems
  else do
    let s : TimeScale α :=
      { groups := ScaleGroup.numberAll order groups
        leaves := leaves
        unitCount := Measure.sum (leaves.map (·.unit))
        size := size
        hint := 0
        leaves_ne_nil := h }
    let s ← s.restore
    .ok (s.setSize size)

end TimeScale

end Timeline
