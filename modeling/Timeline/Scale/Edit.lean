import Timeline.Calendar.Shift
import Timeline.Scale.Basic
import Timeline.Scale.PrimeDate

/-! # Edits of a scale

New starts and ends, shifts by months, and new display texts. An edit that fails gives no scale, so
the one before it stays as it was. -/
namespace Timeline

inductive TimeValue
  | text (s : String)
  | moment (m : Moment)
  deriving DecidableEq

namespace TimeValue

def moment? : TimeValue → Option Moment
  | text s => Moment.ofText? s
  | moment m => some m

def toText : TimeValue → String
  | text s => s
  | moment m => m.text

/-- The moment of the value at an index, or the error that it is none. -/
def resolve (index : Nat) (v : TimeValue) : Except ScaleError Moment :=
  match v.moment? with
  | some m => .ok m
  | none => .error (.invalidTime index v.toText)

def resolveAll (index : Nat) : List TimeValue → Except ScaleError (List Moment)
  | [] => .ok []
  | v :: vs => do
    let m ← v.resolve index
    let ms ← resolveAll (index + 1) vs
    .ok (m :: ms)

end TimeValue

namespace TimeScale

variable {α : Type}

/-- The starts with the first ones replaced; a time beyond the last start replaces the end. -/
def replaceTimes : List Moment → Moment → List Moment → List Moment × Moment
  | starts, stop, [] => (starts, stop)
  | [], _, m :: ms => replaceTimes [] m ms
  | _ :: starts, stop, m :: ms =>
    let (starts, stop) := replaceTimes starts stop ms
    (m :: starts, stop)

/-- Sets the starts of the leaves in order; values beyond the last leaf set the end, the last one
counts. -/
def setTimes (s : TimeScale α) (values : List TimeValue) : Except ScaleError (TimeScale α) := do
  let times ← TimeValue.resolveAll 0 values
  let (starts, stop) := replaceTimes (s.leaves.map (·.start)) s.stop times
  s.setStarts starts (some stop)

/-- Shifts a moment, or tells that it would leave the calendar. -/
def shifted (shift : MonthShift) (m : Moment) : Except ScaleError Moment :=
  match shift.moment? m with
  | some m => .ok m
  | none => .error (.outOfRange shift.months)

/-- Shifts all starts and the end so that the scale starts in the month of a time. -/
def moveTo (s : TimeScale α) (v : TimeValue) : Except ScaleError (TimeScale α) := do
  let target ← v.resolve 0
  let shift := MonthShift.between s.start target
  let starts ← (s.leaves.map (·.start)).mapM (shifted shift)
  let stop ← shifted shift s.stop
  s.setStarts starts (some stop)

/-- Moves the scale to a date, or to the one that it is mapped to. -/
def setPrimeDate (s : TimeScale α) (v : TimeValue) (map : Option PrimeDateMap) :
    Except ScaleError (TimeScale α) :=
  match map with
  | none => s.moveTo v
  | some map => do
    let date ← v.resolve 0
    let prime ← map.map date
    s.moveTo (.moment prime)

def setDisplay (s : TimeScale α) (entries : List (Option DisplayEntry)) : TimeScale α :=
  { s with groups := DisplayEntry.overlay entries s.groups }

def restoreDisplay (s : TimeScale α) : TimeScale α :=
  { s with groups := ScaleGroup.restoreTexts s.groups }

end TimeScale

end Timeline
