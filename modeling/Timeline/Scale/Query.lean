import Timeline.Scale.Basic

/-! # Questions to a scale

Where a moment lies, and which part of the axis a range of time covers. An answer comes with the
scale that remembers where it was found. -/
namespace Timeline

structure LayoutRange (α : Type) where
  start : α
  stop : α
  size : α
  deriving DecidableEq, Repr

namespace LayoutRange

/-- Writes the range into the layout document of an item. -/
def writeInto (r : LayoutRange Float) (layout : Json) : Json :=
  ((layout.set "itemStart" (.ofFloat r.start)).set "itemEnd" (.ofFloat r.stop)).set "itemSize"
    (.ofFloat r.size)

end LayoutRange

namespace TimeScale

variable {α : Type}

def findIndex (s : TimeScale α) (m : Moment) : Option Nat × TimeScale α :=
  match ScaleLeaf.indexFrom? s.leaves s.hint m with
  | some index => (some index, { s with hint := index })
  | none => (none, s)

def findLeaf (s : TimeScale α) (m : Moment) : Option (ScaleLeaf α) × TimeScale α :=
  let (index, s) := s.findIndex m
  (index.bind (s.leaves[·]?), s)

variable [Measure α]

def location (s : TimeScale α) (m : Moment) : Option α × TimeScale α :=
  let (leaf, s) := s.findLeaf m
  (leaf.map (·.location m), s)

/-- The part of the axis from one moment to another. There is none if the range is empty or starts
off the scale; an end beyond the scale is moved to the end of the last leaf. -/
def range (s : TimeScale α) (start stop : Moment) : Option (LayoutRange α) × TimeScale α :=
  if stop ≤ start then (none, s)
  else
    match s.location start with
    | (none, s) => (none, s)
    | (some first, s) =>
      let (last, s) := s.location stop
      let last := last.getD s.lastLeaf.layoutEnd
      (some ⟨first, last, last - first⟩, s)

end TimeScale

end Timeline
