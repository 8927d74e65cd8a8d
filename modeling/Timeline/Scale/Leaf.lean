import Timeline.Scale.Descriptor
import Timeline.Scale.Error

/-! # Leaves

The flat sequence of the slices of the time axis. Each ends where the next one starts; sizes on the
axis are in proportion to the units. -/
namespace Timeline

structure ScaleLeaf (α : Type) where
  start : Moment
  stop : Moment
  length : Duration
  unit : α
  layoutStart : α
  layoutSize : α
  layoutEnd : α
  /-- The start as the template describes it. -/
  defaultStart : Moment
  /-- The end as the template describes it, if it could be read. -/
  defaultStop : Option Moment
  deriving DecidableEq

namespace ScaleLeaf

variable {α : Type} [Measure α]

def ofDescriptor (d : ScaleDescriptor α) : ScaleLeaf α :=
  { start := d.start
    stop := d.stop?.getD d.start
    length := ⟨0⟩
    unit := d.unit
    layoutStart := Measure.zero
    layoutSize := Measure.zero
    layoutEnd := Measure.zero
    defaultStart := d.start
    defaultStop := d.stop? }

omit [Measure α] in
/-- Is the moment from the start on and before the end? -/
def contains (leaf : ScaleLeaf α) (m : Moment) : Bool := leaf.start ≤ m && m < leaf.stop

/-- The place of a moment on the axis, within the leaf. A leaf without length has one place. -/
def location (leaf : ScaleLeaf α) (m : Moment) : α :=
  let length : α := leaf.length.millis
  if Measure.less Measure.zero length then
    let passed := Measure.clamp Measure.zero length (leaf.start.durationTo m).millis
    leaf.layoutStart + leaf.layoutSize * passed / length
  else leaf.layoutStart

omit [Measure α] in
def setBounds (leaf : ScaleLeaf α) (start stop : Moment) : ScaleLeaf α :=
  { leaf with start := start, stop := stop, length := start.durationTo stop }

/-- The start and end of each leaf, given the starts from the leaf `index` on and the end of the
last one. Of several leaves that would end before they start, the last one is reported. -/
def bounds (index : Nat) : List Moment → Moment → Except ScaleError (List (Moment × Moment))
  | [], _ => .ok []
  | start :: starts, stop => do
    let later ← bounds (index + 1) starts stop
    let stop := starts.headD stop
    if stop < start then .error (.boundaryViolation index start stop)
    else .ok ((start, stop) :: later)

omit [Measure α] in
def setAllBounds : List (ScaleLeaf α) → List (Moment × Moment) → List (ScaleLeaf α)
  | leaf :: leaves, (start, stop) :: rest => leaf.setBounds start stop :: setAllBounds leaves rest
  | leaves, _ => leaves

omit [Measure α] in
theorem length_setAllBounds (leaves : List (ScaleLeaf α)) (bs : List (Moment × Moment)) :
    (setAllBounds leaves bs).length = leaves.length := by
  fun_induction setAllBounds leaves bs <;> simp_all

omit [Measure α] in
theorem setAllBounds_ne_nil {leaves : List (ScaleLeaf α)} (h : leaves ≠ [])
    (bs : List (Moment × Moment)) : setAllBounds leaves bs ≠ [] := by
  rwa [← List.length_pos_iff, length_setAllBounds, List.length_pos_iff]

def unitSize (size unitCount : α) : α :=
  if Measure.less Measure.zero unitCount then size / unitCount else Measure.zero

/-- Puts the leaves one after another from a place on. -/
def place (unitSize : α) : α → List (ScaleLeaf α) → List (ScaleLeaf α)
  | _, [] => []
  | offset, leaf :: leaves =>
    let size := unitSize * leaf.unit
    { leaf with layoutStart := offset, layoutSize := size, layoutEnd := offset + size } ::
      place unitSize (offset + size) leaves

theorem length_place (unitSize offset : α) (leaves : List (ScaleLeaf α)) :
    (place unitSize offset leaves).length = leaves.length := by
  induction leaves generalizing offset with
  | nil => rfl
  | cons leaf leaves ih => simp [place, ih]

omit [Measure α] in
/-- The nearest leaf from the one before index `n` downward that contains a moment. -/
def scanDown? (leaves : List (ScaleLeaf α)) (m : Moment) : Nat → Option Nat
  | 0 => none
  | n + 1 =>
    match leaves[n]? with
    | some leaf => if leaf.contains m then some n else scanDown? leaves m n
    | none => scanDown? leaves m n

omit [Measure α] in
/-- The nearest leaf from an index upward that contains a moment. -/
def scanUp? (leaves : List (ScaleLeaf α)) (m : Moment) (from' : Nat) : Option Nat :=
  ((leaves.drop from').findIdx? fun leaf => leaf.contains m).map (from' + ·)

omit [Measure α] in
/-- The leaf that contains a moment, looked for from the leaf `hint`: in one direction, which the
first leaf that does not contain it decides. -/
def indexFrom? (leaves : List (ScaleLeaf α)) (hint : Nat) (m : Moment) : Option Nat :=
  let index := min hint (leaves.length - 1)
  match leaves[index]? with
  | none => none
  | some leaf =>
    if leaf.contains m then some index
    else if m < leaf.start then scanDown? leaves m index
    else scanUp? leaves m (index + 1)

end ScaleLeaf

end Timeline
