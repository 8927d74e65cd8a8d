import Mathlib.Tactic.Lemma
import Timeline.Scale.Edit
import Timeline.Scale.Query

/-! # Runs of a scale

Edits and questions put to a scale one after another, in any order. An edit that fails leaves the
scale as it was, and a question changes at most the leaf where the next search starts. -/
namespace Timeline

inductive Edit (α : Type)
  | setTimes (values : List TimeValue)
  | moveTo (v : TimeValue)
  | setPrimeDate (v : TimeValue) (map : Option PrimeDateMap)
  | restore
  | setSize (size : α)
  | setDisplay (entries : List (Option DisplayEntry))
  | restoreDisplay

/-- What an edit is about. -/
inductive EditKind
  | times
  | layout
  | texts
  deriving DecidableEq

def Edit.kind {α : Type} : Edit α → EditKind
  | setTimes _ | moveTo _ | setPrimeDate .. | restore => .times
  | setSize _ => .layout
  | setDisplay _ | restoreDisplay => .texts

inductive Query
  | index (m : Moment)
  | leaf (m : Moment)
  | location (m : Moment)
  | range (start stop : Moment)

inductive Answer (α : Type)
  | index (i : Option Nat)
  | leaf (l : Option (ScaleLeaf α))
  | location (x : Option α)
  | range (r : Option (LayoutRange α))

inductive Operation (α : Type)
  | edit (e : Edit α)
  | ask (q : Query)

inductive Reply (α : Type)
  | done
  | failed (cause : ScaleError)
  | answered (a : Answer α)

variable {α : Type} [Measure α]

def Edit.apply (s : TimeScale α) : Edit α → Except ScaleError (TimeScale α)
  | setTimes values => s.setTimes values
  | moveTo v => s.moveTo v
  | setPrimeDate v map => s.setPrimeDate v map
  | restore => s.restore
  | setSize size => .ok (s.setSize size)
  | setDisplay entries => .ok (s.setDisplay entries)
  | restoreDisplay => .ok s.restoreDisplay

def Query.ask (s : TimeScale α) : Query → Answer α × TimeScale α
  | index m => (.index (s.findIndex m).1, (s.findIndex m).2)
  | leaf m => (.leaf (s.findLeaf m).1, (s.findLeaf m).2)
  | location m => (.location (s.location m).1, (s.location m).2)
  | range start stop => (.range (s.range start stop).1, (s.range start stop).2)

namespace TimeScale

def perform (s : TimeScale α) : Operation α → Reply α × TimeScale α
  | .edit e =>
    match e.apply s with
    | .ok s' => (.done, s')
    | .error cause => (.failed cause, s)
  | .ask q => (.answered (q.ask s).1, (q.ask s).2)

/-- Performs operations in order, each on the scale that the one before it left. -/
def run (s : TimeScale α) : List (Operation α) → List (Reply α) × TimeScale α
  | [] => ([], s)
  | op :: ops =>
    let (reply, s) := s.perform op
    let (replies, s) := s.run ops
    (reply :: replies, s)

def askAll (s : TimeScale α) : List Query → List (Answer α)
  | [] => []
  | q :: qs => (q.ask s).1 :: (q.ask s).2.askAll qs

/-- What every operation keeps is kept by a run. -/
theorem run_induction {motive : TimeScale α → Prop} {s : TimeScale α} (start : motive s)
    (step : ∀ s op, motive s → motive (s.perform op).2) (ops : List (Operation α)) :
    motive (s.run ops).2 := by
  induction ops generalizing s with
  | nil => exact start
  | cons op ops ih => exact ih (step s op start)

end TimeScale

end Timeline
