import Timeline.Proofs.Scale.Boundaries

/-! # Moves one after another

Where a scale ends up after several moves. If no day of a boundary can be lost on the way, only the
last move counts. A move that is made again changes nothing more, unless the first one has put the
start of the scale on the last day of a month: then the second one takes every boundary to the last
day of its month. -/
namespace Timeline

namespace Moment

/-- The last day of the month of a moment, at the same time of day. -/
def monthEnd (m : Moment) : Moment := ⟨m.date.monthEnd, m.time⟩

lemma monthEnd_eq_self {m : Moment} (h : m.date.isMonthEnd = true) : m.monthEnd = m := by
  rw [monthEnd, Date.monthEnd_eq_self h]

end Moment

namespace MonthShift

variable {shift : MonthShift} {m m' : Moment}

lemma isMonthEnd_of_toMonthEnd (hend : shift.toMonthEnd = true)
    (h : shift.moment? m = some m') : m'.date.isMonthEnd = true := by
  obtain ⟨-, hday⟩ := date?_eq_some_iff.1 (moment?_eq_some_iff.1 h).1
  rw [if_pos hend] at hday
  exact Date.isMonthEnd_iff.2 hday

/-- Every month has a day of the first 28. -/
lemma day_eq_of_le (hend : shift.toMonthEnd = false) (hday : m.date.day ≤ 28)
    (h : shift.moment? m = some m') : m'.date.day = m.date.day := by
  obtain ⟨-, hday'⟩ := date?_eq_some_iff.1 (moment?_eq_some_iff.1 h).1
  rw [hend] at hday'
  exact hday'.trans (Nat.min_eq_left (hday.trans m'.date.twentyEight_le_lastDay))

lemma moment?_of_months_eq_zero (h : shift.months = 0) (htime : m.time = shift.time) :
    shift.moment? m = some (if shift.toMonthEnd then m.monthEnd else m) := by
  rw [moment?, date?_of_months_eq_zero h, ← htime]
  cases shift.toMonthEnd <;> rfl

end MonthShift

namespace TimeScale

variable {α : Type} {s s' t : TimeScale α} {v : TimeValue} {target : Moment}

lemma start_of_takes {shift : MonthShift} (h : shift.Takes s.boundaries s'.boundaries) :
    shift.moment? s.start = some s'.start := by
  rw [s.boundaries_eq_cons, s'.boundaries_eq_cons] at h
  exact (List.forall₂_cons.1 h).1

lemma tail_of_takes {shift : MonthShift} (h : shift.Takes s.boundaries s'.boundaries) :
    shift.Takes s.boundaries.tail s'.boundaries.tail := by
  rw [s.boundaries_eq_cons, s'.boundaries_eq_cons] at h
  exact (List.forall₂_cons.1 h).2

/-- Does every move keep track of the days? Either it puts all boundaries on the last days of their
months, or every month has all their days, and the first one is the last day of none. -/
def KeepsDays (s : TimeScale α) : Prop :=
  s.start.date.isMonthEnd = true ∨
    (s.start.date.day ≤ 27 ∧ ∀ m ∈ s.boundaries.tail, m.date.day ≤ 28)

instance (s : TimeScale α) : Decidable s.KeepsDays := inferInstanceAs (Decidable (_ ∨ _ ∧ _))

lemma isMonthEnd_eq_false (h : s.start.date.day ≤ 27) : s.start.date.isMonthEnd = false := by
  have hlast := s.start.date.twentyEight_le_lastDay
  rw [Bool.eq_false_iff, Ne, Date.isMonthEnd_iff]
  omega

namespace KeepsDays

/-- What a move to a target does to a scale that keeps track of the days. -/
lemma of_takes (hs : s.KeepsDays)
    (h : (MonthShift.between s.start target).Takes s.boundaries s'.boundaries) :
    s'.KeepsDays ∧ s'.start.date.isMonthEnd = s.start.date.isMonthEnd := by
  have hstart := start_of_takes h
  rcases hs with hend | ⟨hday, htail⟩
  · have hend' := MonthShift.isMonthEnd_of_toMonthEnd hend hstart
    exact ⟨.inl hend', hend'.trans hend.symm⟩
  · have hend := isMonthEnd_eq_false hday
    have hday' : s'.start.date.day ≤ 27 := by
      rwa [MonthShift.day_eq_of_le hend (Nat.le_succ_of_le hday) hstart]
    refine ⟨.inr ⟨hday', (tail_of_takes h).forall_mem fun m hm m' hm' => ?_⟩,
      (isMonthEnd_eq_false hday').trans hend.symm⟩
    rw [MonthShift.day_eq_of_le hend (htail m hm) hm']
    exact htail m hm

/-- Each boundary is moved from where the first move has put it as from where it was. -/
lemma moment?_eq (hs : s.KeepsDays)
    (h : (MonthShift.between s.start target).Takes s.boundaries s'.boundaries) (target' : Moment) :
    ∀ m ∈ s.boundaries, ∀ m', (MonthShift.between s.start target).moment? m = some m' →
      (MonthShift.between s'.start target').moment? m' =
        (MonthShift.between s.start target').moment? m := by
  intro m hm m' hm'
  have hend := (hs.of_takes h).2
  refine MonthShift.moment?_trans hm' ?_ hend ?_ rfl
  · have hmonth := MonthShift.monthNumber_of_between (start_of_takes h)
    change _ - _ = _ - _ + (_ - s'.start.date.monthNumber)
    omega
  · rcases hs with hmonthEnd | ⟨hday, htail⟩
    · exact .inl (hend.trans hmonthEnd)
    · refine .inr (MonthShift.day_eq_of_le (isMonthEnd_eq_false hday) ?_ hm')
      rw [s.boundaries_eq_cons] at hm
      rcases List.mem_cons.1 hm with rfl | hm
      · exact Nat.le_succ_of_le hday
      · exact htail m hm

lemma of_moveTo (hs : s.KeepsDays) (h : s.moveTo v = .ok s') : s'.KeepsDays := by
  obtain ⟨target, -, htakes, -⟩ := moveTo_eq_ok_iff.1 h
  exact (hs.of_takes htakes).1

/-- After a move, another one leads where it leads without the first one. -/
lemma moveTo_iff (hs : s.KeepsDays) {first : TimeValue} (h : s.moveTo first = .ok s') :
    s'.moveTo v = .ok t ↔ s.moveTo v = .ok t := by
  obtain ⟨target, -, htakes, hrebound⟩ := moveTo_eq_ok_iff.1 h
  rw [moveTo_eq_ok_iff, moveTo_eq_ok_iff, hrebound.trans_iff]
  refine exists_congr fun target' => and_congr_right fun _ => and_congr_left fun _ => ?_
  refine List.Forall₂.forall₂_iff htakes fun m hm m' hm' moved => ?_
  rw [hs.moment?_eq htakes target' m hm m' hm']

variable [Measure α]

/-- Moves before the last one do not matter, whether they succeed or fail. -/
lemma moveTo_run_iff (hs : s.KeepsDays) (before : List TimeValue) :
    (s.run (before.map fun first => .edit (.moveTo first))).2.moveTo v = .ok t ↔
      s.moveTo v = .ok t := by
  induction before generalizing s with
  | nil => exact Iff.rfl
  | cons first before ih =>
    change ((s.perform (.edit (.moveTo first))).2.run _).2.moveTo v = .ok t ↔ _
    unfold perform Edit.apply
    dsimp only
    cases h : s.moveTo first with
    | error cause => exact ih hs
    | ok moved => exact (ih (hs.of_moveTo h)).trans (hs.moveTo_iff h)

end KeepsDays

/-- Where a scale is moved to, and whether it can be moved there, is not up to the moves before,
if it starts on the last day of a month or no boundary is on a day that some month lacks. -/
theorem moveTo_after_moves [Measure α] {s : TimeScale α} (hs : s.KeepsDays) :
    (∀ first s', s.moveTo first = .ok s' → ∀ v t, s'.moveTo v = .ok t ↔ s.moveTo v = .ok t) ∧
    ∀ (before : List TimeValue) v t,
      (s.run (before.map fun first => .edit (.moveTo first))).2.moveTo v = .ok t ↔
        s.moveTo v = .ok t :=
  ⟨fun _ _ h _ _ => hs.moveTo_iff h, fun before _ _ => hs.moveTo_run_iff before⟩

/-- A scale that starts on the last day of a month, with a boundary in the middle of one. -/
def fromMonthEnd : List (ScaleDescriptor Float) :=
  [⟨"1", none, some "2024-01-31", none, none⟩, ⟨"2", none, some "2024-02-15", some "2024-03-15", none⟩]

lemma leafOrder_fromMonthEnd : leafOrder (ScaleGroup.ofDescriptors fromMonthEnd) = [0, 1] :=
  leafOrder_eq (by decide) (by decide)

/-- A move into a short February is forgotten by one into a long February. -/
theorem moveTo_after_moves_february :
    ∃ s s' t, build fromMonthEnd (Measure.ofInt 100) = .ok s ∧ s.KeepsDays ∧
      s.moveTo (.text "2025-02-10") = .ok s' ∧ s'.moveTo (.text "2028-02-01") = .ok t ∧
      s.moveTo (.text "2028-02-01") = .ok t ∧ t.start = ⟨⟨2028, 2, 29, by decide⟩, .midnight⟩ := by
  have hrun : (build fromMonthEnd (Measure.ofInt 100)).toOption.any fun s =>
      decide s.KeepsDays && (s.moveTo (.text "2025-02-10")).toOption.any fun s' =>
        (s'.moveTo (.text "2028-02-01")).toOption.any fun t =>
          t.start = ⟨⟨2028, 2, 29, by decide⟩, .midnight⟩ := by
    simp only [build, leafOrder_fromMonthEnd]
    decide +kernel
  obtain ⟨s, hbuild, hs⟩ := Except.exists_of_any_toOption hrun
  obtain ⟨hkeeps, hs⟩ := Bool.and_eq_true_iff.1 hs
  obtain ⟨s', hfirst, hs'⟩ := Except.exists_of_any_toOption hs
  obtain ⟨t, hsecond, ht⟩ := Except.exists_of_any_toOption hs'
  have hkeeps := of_decide_eq_true hkeeps
  exact ⟨s, s', t, hbuild, hkeeps, hfirst, hsecond,
    ((moveTo_after_moves hkeeps).1 _ s' hfirst _ t).1 hsecond, of_decide_eq_true ht⟩

/-- A move into the month where the scale starts keeps the scale as it is, if it keeps the time of
day and would not put a boundary on another day. -/
lemma moveTo_eq_self (hs : s.Rebound s) (hv : v.moment? = some target)
    (hmonth : s.start.date.monthNumber = target.date.monthNumber)
    (htime : ∀ m ∈ s.boundaries, m.time = target.time.wholeSecond)
    (hend : s.start.date.isMonthEnd = true → ∀ m ∈ s.boundaries, m.date.isMonthEnd = true) :
    s.moveTo v = .ok s := by
  refine moveTo_eq_ok_iff.2 ⟨target, hv, List.forall₂_same.2 fun m hm => ?_, hs⟩
  rw [MonthShift.moment?_of_months_eq_zero (Int.sub_eq_zero.2 hmonth.symm) (htime m hm)]
  split
  · next hstart => rw [Moment.monthEnd_eq_self (hend hstart m hm)]
  · rfl

/-- A move that succeeds does so again. The scale stays where it is from the second time on, and
from the first time on unless only the first move has put its start on the last day of a month. If
the start is there, the second move puts every boundary on the last day of its month. -/
theorem moveTo_again {s s' : TimeScale α} {v : TimeValue} (h : s.moveTo v = .ok s') :
    ∃ s'', s'.moveTo v = .ok s'' ∧ s''.moveTo v = .ok s'' ∧
      (s.start.date.isMonthEnd = true ∨ s'.start.date.isMonthEnd = false → s'' = s') ∧
      (s'.start.date.isMonthEnd = true → s''.boundaries = s'.boundaries.map Moment.monthEnd) := by
  obtain ⟨target, hv, htakes, hrebound⟩ := moveTo_eq_ok_iff.1 h
  have hmonth := MonthShift.monthNumber_of_between (start_of_takes htakes)
  have htime : ∀ m ∈ s'.boundaries, m.time = target.time.wholeSecond :=
    htakes.forall_mem fun _ _ _ hm => (MonthShift.moment?_eq_some_iff.1 hm).2
  cases hend : s'.start.date.isMonthEnd with
  | false =>
    have hself : s'.moveTo v = .ok s' :=
      moveTo_eq_self hrebound.refl_right hv hmonth htime (by simp [hend])
    exact ⟨s', hself, hself, fun _ => rfl, nofun⟩
  | true =>
    have hmonthEnds : (MonthShift.between s'.start target).Takes s'.boundaries
        (s'.boundaries.map Moment.monthEnd) := by
      refine List.forall₂_map_right_iff.2 (List.forall₂_same.2 fun m hm => ?_)
      rw [MonthShift.moment?_of_months_eq_zero (Int.sub_eq_zero.2 hmonth.symm) (htime m hm)]
      exact congrArg some (if_pos hend)
    obtain ⟨s'', hmoved, hboundaries⟩ := exists_moveTo hrebound.isChain hv hmonthEnds
    obtain ⟨_, -, -, hrebound'⟩ := moveTo_eq_ok_iff.1 hmoved
    have hstart : s''.start = s'.start.monthEnd := by
      rw [s''.boundaries_eq_cons, s'.boundaries_eq_cons] at hboundaries
      exact (List.cons.inj hboundaries).1
    refine ⟨s'', hmoved, ?_, ?_, fun _ => hboundaries⟩
    · refine moveTo_eq_self hrebound'.refl_right hv (hstart ▸ hmonth) ?_ fun _ => ?_
      · rw [hboundaries, List.forall_mem_map]
        exact htime
      · rw [hboundaries, List.forall_mem_map]
        exact fun m _ => m.date.isMonthEnd_monthEnd
    · rintro (hfirst | hlast)
      · have hends : ∀ m ∈ s'.boundaries, m.date.isMonthEnd = true :=
          htakes.forall_mem fun _ _ _ hm => MonthShift.isMonthEnd_of_toMonthEnd hfirst hm
        refine hrebound'.eq_of_boundaries_eq hrebound.refl_right ?_
        calc s''.boundaries = s'.boundaries.map Moment.monthEnd := hboundaries
          _ = s'.boundaries.map id :=
            List.map_congr_left fun m hm => Moment.monthEnd_eq_self (hends m hm)
          _ = s'.boundaries := List.map_id _
      · cases hlast

/-- A leaf that starts on a day that February lacks. -/
def fromThirtieth : List (ScaleDescriptor Float) :=
  [⟨"-", none, some "2023-01-30", some "2023-03-15", none⟩]

lemma leafOrder_fromThirtieth : leafOrder (ScaleGroup.ofDescriptors fromThirtieth) = [0] :=
  leafOrder_eq (by decide) (by decide)

/-- The first move puts the start on the last day of February, and the second one the end on the
last day of April. -/
theorem moveTo_twice_ne :
    ∃ s s' s'', build fromThirtieth (Measure.ofInt 100) = .ok s ∧
      s.moveTo (.text "2023-02-01") = .ok s' ∧ s'.moveTo (.text "2023-02-01") = .ok s'' ∧
      s'.stop = ⟨⟨2023, 4, 15, by decide⟩, .midnight⟩ ∧
      s''.stop = ⟨⟨2023, 4, 30, by decide⟩, .midnight⟩ := by
  have hrun : (build fromThirtieth (Measure.ofInt 100)).toOption.any fun s =>
      (s.moveTo (.text "2023-02-01")).toOption.any fun s' =>
        (s'.moveTo (.text "2023-02-01")).toOption.any fun s'' =>
          s'.stop = ⟨⟨2023, 4, 15, by decide⟩, .midnight⟩ ∧
            s''.stop = ⟨⟨2023, 4, 30, by decide⟩, .midnight⟩ := by
    simp only [build, leafOrder_fromThirtieth]
    decide +kernel
  obtain ⟨s, hbuild, hs⟩ := Except.exists_of_any_toOption hrun
  obtain ⟨s', hfirst, hs'⟩ := Except.exists_of_any_toOption hs
  obtain ⟨s'', hsecond, hstops⟩ := Except.exists_of_any_toOption hs'
  exact ⟨s, s', s'', hbuild, hfirst, hsecond, of_decide_eq_true hstops⟩

/-- The third move finds every boundary on the last day of its month. -/
theorem moveTo_again_fromThirtieth :
    ∃ s s' s'', build fromThirtieth (Measure.ofInt 100) = .ok s ∧
      s.moveTo (.text "2023-02-01") = .ok s' ∧ s'.moveTo (.text "2023-02-01") = .ok s'' ∧
      s''.moveTo (.text "2023-02-01") = .ok s'' ∧
      s''.boundaries = s'.boundaries.map Moment.monthEnd := by
  have hrun : (build fromThirtieth (Measure.ofInt 100)).toOption.any fun s =>
      (s.moveTo (.text "2023-02-01")).toOption.any fun s' => s'.start.date.isMonthEnd := by
    simp only [build, leafOrder_fromThirtieth]
    decide +kernel
  obtain ⟨s, hbuild, hs⟩ := Except.exists_of_any_toOption hrun
  obtain ⟨s', hfirst, hend⟩ := Except.exists_of_any_toOption hs
  obtain ⟨s'', hsecond, hthird, -, hboundaries⟩ := moveTo_again hfirst
  exact ⟨s, s', s'', hbuild, hfirst, hsecond, hthird, hboundaries hend⟩

end TimeScale

end Timeline
