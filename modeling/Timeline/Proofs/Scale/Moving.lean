import Timeline.Proofs.Calendar.Range
import Timeline.Proofs.Scale.Anchoring
import Timeline.Proofs.Scale.Descent

/-! # Moves

A move shifts all boundaries of a scale by the months from its start to a target. The start comes
into the month of the target, which is one of the calendar, and the other boundaries do not come
before it. So a move fails only if the end would come after the last month of the calendar. -/
namespace Timeline
open Calendar

/-- A moment and where it is moved by some months: to the last day of its new month if the first of
all boundaries is on such a day, and else as far as this month goes to the same day, at the whole
second of a time of day. How far a month goes is up to the calendar. -/
structure Moment.MovedBy (months : Int) (first : Date) (time : TimeOfDay) (m m' : Moment) :
    Prop where
  month : m'.date.monthNumber = m.date.monthNumber + months
  day : m'.date.day =
    if first.day = first.lastDay then m'.date.lastDay else min m.date.day m'.date.lastDay
  hour : m'.time.hour = time.hour
  minute : m'.time.minute = time.minute
  second : m'.time.second = time.second
  nano : m'.time.nano = 0

namespace MonthShift

variable {shift : MonthShift} {source target m m' : Moment}

lemma movedBy_of_between (h : (between source target).moment? m = some m') :
    Moment.MovedBy (between source target).months source.date target.time m m' := by
  obtain ⟨hdate, htime⟩ := moment?_eq_some_iff.1 h
  obtain ⟨hmonth, hday⟩ := date?_eq_some_iff.1 hdate
  refine ⟨hmonth, ?_, ?_, ?_, ?_, ?_⟩
  · rw [hday]
    exact if_congr Date.isMonthEnd_iff rfl rfl
  all_goals
    rw [htime]
    rfl

lemma exists_takes_iff {ms : List Moment} :
    (∃ ms', shift.Takes ms ms') ↔ ∀ m ∈ ms, ∃ m', shift.moment? m = some m' := by
  induction ms with
  | nil => exact iff_of_true ⟨[], .nil⟩ (List.forall_mem_nil _)
  | cons m ms ih =>
    rw [List.forall_mem_cons, ← ih]
    constructor
    · rintro ⟨ms', h⟩
      obtain ⟨m', ms', hm, hms, rfl⟩ := List.forall₂_cons_left_iff.1 h
      exact ⟨⟨m', hm⟩, ms', hms⟩
    · rintro ⟨⟨m', hm⟩, ms', hms⟩
      exact ⟨m' :: ms', .cons hm hms⟩

end MonthShift

namespace TimeScale

variable {α : Type} {s s' : TimeScale α} {v : TimeValue} {target : Moment} {cause : ScaleError}

/-- The calendar months from the start of a scale to a moment. -/
def monthsTo (s : TimeScale α) (m : Moment) : Int :=
  (m.date.year - s.start.date.year) * 12 + ((m.date.month : Int) - s.start.date.month)

lemma months_between (s : TimeScale α) (target : Moment) :
    (MonthShift.between s.start target).months = s.monthsTo target := by
  obtain ⟨hs, -, -, -⟩ := s.start.date.bounds
  obtain ⟨ht, -, -, -⟩ := target.date.bounds
  unfold MonthShift.between monthsTo Date.monthNumber
  dsimp only
  omega

lemma start_add_monthsTo (s : TimeScale α) (target : Moment) :
    s.start.date.monthNumber + s.monthsTo target = target.date.monthNumber := by
  rw [← months_between, MonthShift.between]
  dsimp only
  omega

/-- The boundaries can be shifted to a target unless the end comes after the last month. -/
lemma exists_takes_between_iff (hs : s.boundaries.IsChain (· ≤ ·)) (target : Moment) :
    (∃ ms, (MonthShift.between s.start target).Takes s.boundaries ms) ↔
      s.stop.date.monthNumber + s.monthsTo target ≤ lastMonth := by
  simp only [← months_between, MonthShift.exists_takes_iff, MonthShift.exists_moment?_iff]
  constructor
  · exact fun h => (h s.stop (by simp [boundaries])).2
  · intro hlast m hm
    obtain ⟨hstart, hstop⟩ := mem_boundaries hs hm
    have hstart := Moment.monthNumber_mono hstart
    have hstop := Moment.monthNumber_mono hstop
    have htarget := target.date.monthNumber_mem
    rw [← start_add_monthsTo s, ← months_between] at htarget
    omega

lemma eq_outOfRange_of_shifted {shift : MonthShift} {m : Moment}
    (h : shifted shift m = .error cause) : cause = .outOfRange shift.months := by
  unfold shifted at h
  split at h <;> cases h
  rfl

/-- A move to a target has one reason to fail. -/
lemma eq_outOfRange_of_moveTo (hs : s.boundaries.IsChain (· ≤ ·)) (hv : v.moment? = some target)
    (h : s.moveTo v = .error cause) : cause = .outOfRange (s.monthsTo target) := by
  rw [← months_between]
  unfold moveTo at h
  rw [TimeValue.resolve_eq_ok_iff.2 hv, Except.ok_bind] at h
  rcases Except.bind_eq_error_iff.1 h with h | ⟨starts, hstarts, h⟩
  · obtain ⟨m, -, hm⟩ := Except.exists_of_mapM_eq_error h
    exact eq_outOfRange_of_shifted hm
  rcases Except.bind_eq_error_iff.1 h with h | ⟨stop, hstop, h⟩
  · exact eq_outOfRange_of_shifted h
  -- shifted boundaries are in order, so they are not refused
  have htakes : (MonthShift.between s.start target).Takes s.boundaries (starts ++ [stop]) := by
    refine List.forall₂_concat_iff.2 ⟨?_, shifted_eq_ok_iff.1 hstop⟩
    simpa only [shifted_eq_ok_iff] using Except.mapM_eq_ok_iff.1 hstarts
  rcases setStarts_eq_error_iff.1 h with ⟨hnone, -⟩ | ⟨_, ⟨⟩, i, a, b, hlast, -⟩
  · cases hnone
  · exact absurd (htakes.isChain hs) hlast.not_isChain

theorem moveTo_eq_error_iff (hs : s.boundaries.IsChain (· ≤ ·)) (hv : v.moment? = some target) :
    s.moveTo v = .error cause ↔ lastMonth < s.stop.date.monthNumber + s.monthsTo target ∧
      cause = .outOfRange (s.monthsTo target) := by
  have hfits := exists_takes_between_iff hs target
  cases hmoved : s.moveTo v with
  | ok s' =>
    obtain ⟨_, hv', htakes, -⟩ := moveTo_eq_ok_iff.1 hmoved
    obtain rfl := Option.some.inj (hv.symm.trans hv')
    have hlast := hfits.1 ⟨_, htakes⟩
    exact ⟨nofun, fun h => absurd h.1 (not_lt.2 hlast)⟩
  | error cause' =>
    have hcause := eq_outOfRange_of_moveTo hs hv hmoved
    have hlast : lastMonth < s.stop.date.monthNumber + s.monthsTo target := by
      by_contra hle
      obtain ⟨ms, hms⟩ := hfits.2 (not_lt.1 hle)
      obtain ⟨s', hok, -⟩ := exists_moveTo hs hv hms
      cases hok.symm.trans hmoved
    rw [Except.error.injEq, hcause, and_iff_right hlast, eq_comm]

/-- What becomes of a scale that is moved to a target. Neither the months to the target nor the new
month of a boundary takes more than a word. The move fails only if the end would come after the last
month, and otherwise it moves every boundary by these months. -/
structure MovesTo (s : TimeScale α) (v : TimeValue) (target : Moment) : Prop where
  wordMonths?_eq : wordMonths? s.start.date target.date = some (s.monthsTo target)
  wordTotal?_eq : ∀ m ∈ s.boundaries, wordTotal? (s.monthsTo target) m.date =
    some (m.date.monthNumber + s.monthsTo target)
  eq_error_iff : ∀ cause, s.moveTo v = .error cause ↔
    lastMonth < s.stop.date.monthNumber + s.monthsTo target ∧
      cause = .outOfRange (s.monthsTo target)
  movedBy : ∀ s', s.moveTo v = .ok s' → List.Forall₂
    (Moment.MovedBy (s.monthsTo target) s.start.date target.time)
    s.boundaries s'.boundaries
  map_extent_eq : ∀ s', s.moveTo v = .ok s' →
    s'.leaves.map ScaleLeaf.extent = s'.boundaries.zip s'.boundaries.tail
  start_eq : ∀ s', s.moveTo v = .ok s' →
    s'.start.date.year = target.date.year ∧ s'.start.date.month = target.date.month

lemma movesTo (hs : ScaleLeaf.Contiguous s.leaves) (hv : v.moment? = some target) :
    s.MovesTo v target := by
  have hmoved {s' : TimeScale α} (h : s.moveTo v = .ok s') :
      (MonthShift.between s.start target).Takes s.boundaries s'.boundaries ∧ s.Rebound s' := by
    obtain ⟨_, hv', hmoved⟩ := moveTo_eq_ok_iff.1 h
    obtain rfl := Option.some.inj (hv.symm.trans hv')
    exact hmoved
  constructor
  case wordMonths?_eq => exact s.months_between target ▸ MonthShift.wordMonths?_eq _ _
  case wordTotal?_eq =>
    exact fun m _ => s.months_between target ▸ MonthShift.wordTotal?_eq _ _ m.date
  case eq_error_iff => exact fun _ => moveTo_eq_error_iff (isChain_boundaries hs) hv
  case movedBy =>
    intro s' h
    rw [← months_between]
    exact (hmoved h).1.imp fun _ _ => MonthShift.movedBy_of_between
  case map_extent_eq =>
    intro s' h
    obtain ⟨starts, stop, hlength, hset⟩ := (hmoved h).2
    exact s'.map_extent_eq (contiguous_of_setStarts hlength hset).1
  case start_eq =>
    intro s' h
    have htakes := (hmoved h).1
    rw [s.boundaries_eq_cons, s'.boundaries_eq_cons] at htakes
    have hmonth := MonthShift.monthNumber_of_between (List.forall₂_cons.1 htakes).1
    constructor
    · rw [← Date.year_of_monthNumber, hmonth, Date.year_of_monthNumber]
    · rw [← Date.month_of_monthNumber, hmonth, Date.month_of_monthNumber]

/-- After any run of edits and questions on a built scale, it refuses to be moved to what is no
time, and moves to any other target unless its end would leave the calendar. -/
theorem moveTo_run [Measure α] {descriptors : List (ScaleDescriptor α)} {size : α}
    {built : TimeScale α} (h : build descriptors size = .ok built) (ops : List (Operation α))
    (v : TimeValue) :
    (v.moment? = none → (built.run ops).2.moveTo v = .error (.invalidTime 0 v.toText)) ∧
      ∀ target, v.moment? = some target → (built.run ops).2.MovesTo v target := by
  refine ⟨fun hv => ?_, fun target hv => movesTo (wellFormed_run h ops).contiguous hv⟩
  rw [moveTo, TimeValue.resolve_eq_error_iff.2 ⟨hv, rfl⟩, Except.error_bind]

/-- A scale with boundaries on days that shorter months lack. -/
def fromJanuary : List (ScaleDescriptor Float) :=
  [⟨"1", none, some "2023-01-15", none, none⟩, ⟨"2", none, some "2023-01-31", some "2023-03-31", none⟩]

lemma leafOrder_fromJanuary : leafOrder (ScaleGroup.ofDescriptors fromJanuary) = [0, 1] :=
  leafOrder_eq (by decide) (by decide)

/-- February cuts off the end of January, and April the end of March. The last month of the calendar
has room for the start of the moved scale, but not for all of it. -/
theorem moveTo_run_fromJanuary :
    let half : TimeOfDay := ⟨9, 30, 0, 0, by decide⟩
    ∃ built moved, build fromJanuary (Measure.ofInt 100) = .ok built ∧
      built.moveTo (.text "2024-02-10 09:30") = .ok moved ∧
      moved.boundaries = [⟨⟨2024, 2, 15, by decide⟩, half⟩, ⟨⟨2024, 2, 29, by decide⟩, half⟩,
        ⟨⟨2024, 4, 30, by decide⟩, half⟩] ∧
      List.Forall₂ (Moment.MovedBy 13 built.start.date half) built.boundaries moved.boundaries ∧
      (built.run [.edit (.moveTo (.text "2024-02-10 09:30"))]).2.moveTo (.text "someday") =
        .error (.invalidTime 0 "someday") ∧
      (built.run [.edit (.moveTo (.text "2024-02-10 09:30"))]).2.moveTo (.text "+262142-12-01") =
        .error (.outOfRange 3121426) := by
  intro half
  let february : Moment := ⟨⟨2024, 2, 10, by decide⟩, half⟩
  let december : Moment := ⟨⟨262142, 12, 1, by decide⟩, .midnight⟩
  let ops : List (Operation Float) := [.edit (.moveTo (.text "2024-02-10 09:30"))]
  have hrun : (build fromJanuary (Measure.ofInt 100)).toOption.any fun built =>
      (built.moveTo (.text "2024-02-10 09:30")).toOption.any fun moved =>
        (moved.boundaries = [⟨⟨2024, 2, 15, by decide⟩, half⟩, ⟨⟨2024, 2, 29, by decide⟩, half⟩,
            ⟨⟨2024, 4, 30, by decide⟩, half⟩] ∧
          built.monthsTo february = 13) ∧
        (built.run ops).2.monthsTo december = 3121426 ∧
          lastMonth < (built.run ops).2.stop.date.monthNumber + 3121426 := by
    simp only [build, leafOrder_fromJanuary]
    decide +kernel
  obtain ⟨built, hbuild, hbuilt⟩ := Except.exists_of_any_toOption hrun
  obtain ⟨moved, hmoved, hvalues⟩ := Except.exists_of_any_toOption hbuilt
  obtain ⟨⟨hboundaries, hmonths⟩, hmonths', hlast⟩ := of_decide_eq_true hvalues
  have hmove := ((moveTo_run hbuild [] (.text "2024-02-10 09:30")).2 february
    (by decide +kernel)).movedBy moved hmoved
  have hmoves := moveTo_run hbuild ops
  have hcause := ((hmoves (.text "+262142-12-01")).2 december (by decide +kernel)).eq_error_iff
  refine ⟨built, moved, hbuild, hmoved, hboundaries, hmonths ▸ hmove,
    (hmoves (.text "someday")).1 (by decide +kernel), ?_⟩
  rw [hcause, hmonths']
  exact ⟨hlast, rfl⟩

end TimeScale

end Timeline
