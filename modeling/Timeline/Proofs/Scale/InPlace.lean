import Timeline.Proofs.Scale.Run

/-! # Edits in place

An edit of a scale that is written over. Its steps read the scale, check something or write, and
what is written before a check fails stays written. Since every check comes before the first write,
this is the same as to make a new scale and to keep the old one if that fails. -/
namespace Timeline

/-- A step of an edit: its result or the cause of its failure, and in both cases the scale that it
leaves. -/
abbrev InPlace (α β : Type) := ExceptT ScaleError (StateM (TimeScale α)) β

namespace InPlace

variable {α β γ : Type}

def check (result : Except ScaleError β) : InPlace α β := ExceptT.mk (pure result)

def writeBounds (bounds : List (Moment × Moment)) : InPlace α Unit :=
  modify fun s =>
    { s with
      leaves := ScaleLeaf.setAllBounds s.leaves bounds
      leaves_ne_nil := ScaleLeaf.setAllBounds_ne_nil s.leaves_ne_nil bounds }

def forgetHint : InPlace α Unit := modify fun s => { s with hint := 0 }

def setStarts (starts : List Moment) (stop? : Option Moment) : InPlace α Unit :=
  match stop? with
  | none => throw .missingEnd
  | some stop => do
    let bounds ← check (ScaleLeaf.bounds 0 starts stop)
    writeBounds bounds
    forgetHint

def setTimes (values : List TimeValue) : InPlace α Unit := do
  let times ← check (TimeValue.resolveAll 0 values)
  let s ← get
  let bounds := TimeScale.replaceTimes (s.leaves.map (·.start)) s.stop times
  setStarts bounds.1 (some bounds.2)

def moveTo (v : TimeValue) : InPlace α Unit := do
  let target ← check (v.resolve 0)
  let s ← get
  let shift := MonthShift.between s.start target
  let starts ← check ((s.leaves.map (·.start)).mapM (TimeScale.shifted shift))
  let stop ← check (TimeScale.shifted shift s.stop)
  setStarts starts (some stop)

def setPrimeDate (v : TimeValue) (map : Option PrimeDateMap) : InPlace α Unit :=
  match map with
  | none => moveTo v
  | some map => do
    let date ← check (v.resolve 0)
    let prime ← check (map.map date)
    moveTo (.moment prime)

def restore : InPlace α Unit := do
  let s ← get
  setStarts (s.leaves.map (·.defaultStart)) s.lastLeaf.defaultStop

/-- What becomes of a scale by a new one or by the failure to make one. -/
def settle (s : TimeScale α) :
    Except ScaleError (TimeScale α) → Except ScaleError Unit × TimeScale α
  | .ok s' => (.ok (), s')
  | .error cause => (.error cause, s)

variable {s : TimeScale α}

lemma settle_eq_error_iff {s' : TimeScale α} {result : Except ScaleError (TimeScale α)}
    {cause : ScaleError} :
    settle s result = (.error cause, s') ↔ s' = s ∧ result = .error cause := by
  cases result with
  | ok made => simp [settle]
  | error cause' => simp [settle, and_comm, eq_comm]

/-- A check writes nothing, so what follows it starts from the scale as it is. -/
lemma check_bind_eq {result : Except ScaleError β} {next : β → InPlace α Unit}
    {make : β → Except ScaleError (TimeScale α)} (h : ∀ b, next b s = settle s (make b)) :
    (check result >>= next : InPlace α Unit) s = settle s (result >>= make) := by
  cases result with
  | error cause => rfl
  | ok b => exact h b

lemma setStarts_eq (starts : List Moment) (stop? : Option Moment) :
    setStarts starts stop? s = settle s (s.setStarts starts stop?) := by
  cases stop? with
  | none => rfl
  | some stop =>
    dsimp only [setStarts, TimeScale.setStarts]
    cases ScaleLeaf.bounds 0 starts stop <;> rfl

lemma moveTo_eq (v : TimeValue) : moveTo v s = settle s (s.moveTo v) :=
  check_bind_eq fun _ => check_bind_eq fun starts => check_bind_eq fun stop =>
    setStarts_eq starts (some stop)

end InPlace

variable {α : Type} [Measure α]

def Edit.inPlace : Edit α → InPlace α Unit
  | setTimes values => .setTimes values
  | moveTo v => .moveTo v
  | setPrimeDate v map => .setPrimeDate v map
  | restore => .restore
  | setSize size => modify (·.setSize size)
  | setDisplay entries => modify (·.setDisplay entries)
  | restoreDisplay => modify (·.restoreDisplay)

/-- An edit in place leaves the new scale, or the old one as it was. -/
theorem Edit.inPlace_eq (e : Edit α) (s : TimeScale α) :
    e.inPlace s = InPlace.settle s (e.apply s) := by
  cases e with
  | setTimes values =>
    refine InPlace.check_bind_eq fun times => ?_
    exact InPlace.setStarts_eq (TimeScale.replaceTimes _ _ times).1 (some _)
  | moveTo v => exact InPlace.moveTo_eq v
  | setPrimeDate v map =>
    cases map with
    | none => exact InPlace.moveTo_eq v
    | some map =>
      exact InPlace.check_bind_eq fun date => InPlace.check_bind_eq fun prime =>
        InPlace.moveTo_eq (.moment prime)
  | restore => exact InPlace.setStarts_eq _ _
  | setSize | setDisplay | restoreDisplay => rfl

end Timeline
