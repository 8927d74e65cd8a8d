import Timeline.Proofs.Scale.Descent
import Timeline.Proofs.Scale.InPlace

/-! # Overridden boundaries

Values for the boundaries of a scale may be fewer than its leaves or more. A boundary without a
value stays, and of the values beyond the last leaf the last one is for the end. A value that cannot
be read is reported before the boundaries are looked at. -/
namespace Timeline

/-- The first of some values that is no time, with its index. -/
structure IsFirstUnreadable (values : List TimeValue) (i : Nat) (v : TimeValue) : Prop where
  isLeast : IsLeast {j | ∃ w, values[j]? = some w ∧ w.moment? = none} i
  getElem?_eq : values[i]? = some v

namespace IsFirstUnreadable

variable {values : List TimeValue} {v w : TimeValue} {i : Nat}

lemma moment?_eq (h : IsFirstUnreadable values i v) : v.moment? = none := by
  obtain ⟨w, hw, hnone⟩ := h.isLeast.1
  rw [h.getElem?_eq] at hw
  cases hw
  exact hnone

lemma zero_iff : IsFirstUnreadable (w :: values) 0 v ↔ w = v ∧ v.moment? = none := by
  constructor
  · exact fun h => ⟨Option.some.inj h.getElem?_eq, h.moment?_eq⟩
  · rintro ⟨rfl, hnone⟩
    exact ⟨⟨⟨w, rfl, hnone⟩, fun _ _ => Nat.zero_le _⟩, rfl⟩

lemma succ_iff : IsFirstUnreadable (w :: values) (i + 1) v ↔
    w.moment? ≠ none ∧ IsFirstUnreadable values i v := by
  constructor
  · rintro ⟨⟨hmem, hle⟩, hv⟩
    refine ⟨fun hnone => ?_, ⟨hmem, fun j hj => ?_⟩, hv⟩
    · exact absurd (hle (a := 0) ⟨w, rfl, hnone⟩) (Nat.not_succ_le_zero i)
    · exact Nat.le_of_succ_le_succ (hle (a := j + 1) hj)
  · rintro ⟨hread, ⟨hmem, hle⟩, hv⟩
    refine ⟨⟨hmem, fun j hj => ?_⟩, hv⟩
    cases j with
    | zero =>
      obtain ⟨_, ⟨⟩, hnone⟩ := hj
      exact absurd hnone hread
    | succ j => exact Nat.succ_le_succ (hle hj)

end IsFirstUnreadable

namespace TimeValue

variable {values : List TimeValue} {times : List Moment} {cause : ScaleError}

/-- Values are read if all of them are times. -/
lemma resolveAll_eq_ok_iff {index : Nat} :
    resolveAll index values = .ok times ↔ values.map moment? = times.map some := by
  induction values generalizing index times with
  | nil => cases times <;> simp [resolveAll]
  | cons v values ih =>
    simp only [resolveAll, Except.bind_eq_ok_iff, resolve_eq_ok_iff, ih, Except.ok.injEq]
    constructor
    · rintro ⟨m, hv, ms, hvalues, rfl⟩
      simp only [List.map_cons, hv, hvalues]
    · intro h
      obtain ⟨m, ms, rfl⟩ : ∃ m ms, times = m :: ms := by
        cases times with
        | nil => cases h
        | cons m ms => exact ⟨m, ms, rfl⟩
      obtain ⟨hv, hvalues⟩ := List.cons.inj h
      exact ⟨m, hv, ms, hvalues, rfl⟩

/-- Otherwise the first one that is none is reported. -/
lemma resolveAll_eq_error_iff {index : Nat} : resolveAll index values = .error cause ↔
    ∃ i v, IsFirstUnreadable values i v ∧ cause = .invalidTime (index + i) v.toText := by
  induction values generalizing index with
  | nil =>
    refine ⟨nofun, ?_⟩
    rintro ⟨i, v, h, -⟩
    cases h.getElem?_eq
  | cons v values ih =>
    rw [resolveAll, Except.bind_eq_error_iff, resolve_eq_error_iff]
    simp only [Except.bind_eq_error_iff, resolve_eq_ok_iff, ih, reduceCtorEq, and_false,
      exists_false, or_false]
    constructor
    · rintro (⟨hnone, rfl⟩ | ⟨m, hm, i, w, hw, rfl⟩)
      · exact ⟨0, v, IsFirstUnreadable.zero_iff.2 ⟨rfl, hnone⟩, rfl⟩
      · have hread : v.moment? ≠ none := by simp [hm]
        refine ⟨i + 1, w, IsFirstUnreadable.succ_iff.2 ⟨hread, hw⟩, ?_⟩
        rw [Nat.add_assoc, Nat.add_comm 1]
    · rintro ⟨i, w, hw, rfl⟩
      cases i with
      | zero =>
        obtain ⟨rfl, hnone⟩ := IsFirstUnreadable.zero_iff.1 hw
        exact .inl ⟨hnone, rfl⟩
      | succ i =>
        obtain ⟨hread, hw⟩ := IsFirstUnreadable.succ_iff.1 hw
        obtain ⟨m, hm⟩ := Option.ne_none_iff_exists'.1 hread
        refine .inr ⟨m, hm, i, w, hw, ?_⟩
        rw [Nat.add_assoc, Nat.add_comm 1]

end TimeValue

namespace ScaleLeaf

variable {α : Type}

lemma setAllBounds_map_extent {leaves : List (ScaleLeaf α)}
    (h : ∀ leaf ∈ leaves, leaf.length = leaf.start.durationTo leaf.stop) :
    setAllBounds leaves (leaves.map extent) = leaves := by
  induction leaves with
  | nil => rfl
  | cons leaf leaves ih =>
    rw [List.forall_mem_cons] at h
    rw [List.map_cons, extent, setAllBounds, ih h.2, setBounds, ← h.1]

end ScaleLeaf

namespace TimeScale

variable {α : Type} {s s' : TimeScale α} {values : List TimeValue} {times : List Moment}
  {cause : ScaleError}

/-- The boundaries of a scale where times are put in place of them: each leaf takes the time at its
place as its start, and the scale takes the last time beyond the leaves as its end. -/
def overridden (s : TimeScale α) (times : List Moment) : List Moment :=
  s.leaves.mapIdx (fun i leaf => times[i]?.getD leaf.start) ++
    [(times.drop s.leaves.length).getLast?.getD s.stop]

lemma replaceTimes_eq (starts : List Moment) (stop : Moment) (times : List Moment) :
    replaceTimes starts stop times = (starts.mapIdx fun i start => times[i]?.getD start,
      (times.drop starts.length).getLast?.getD stop) := by
  fun_induction replaceTimes starts stop times with
  | case1 starts stop =>
    have hstarts : starts.mapIdx (fun _ start => start) = starts :=
      List.ext_getElem? fun i => by simp
    simp [hstarts]
  | case2 stop m ms ih => simp [ih, List.getLast?_cons]
  | case3 start starts stop m ms starts' stop' h ih =>
    obtain ⟨rfl, rfl⟩ := Prod.mk.inj (h.symm.trans ih)
    simp [List.mapIdx_cons]

lemma replaceTimes_self (starts : List Moment) (stop : Moment) :
    replaceTimes starts stop (starts ++ [stop]) = (starts, stop) := by
  induction starts with
  | nil => rfl
  | cons start starts ih => rw [List.cons_append, replaceTimes, ih]

lemma overridden_eq (s : TimeScale α) (times : List Moment) :
    s.overridden times = (replaceTimes (s.leaves.map (·.start)) s.stop times).1 ++
      [(replaceTimes (s.leaves.map (·.start)) s.stop times).2] := by
  have hstarts : s.leaves.mapIdx (fun i leaf => times[i]?.getD leaf.start) =
      (s.leaves.map (·.start)).mapIdx fun i start => times[i]?.getD start :=
    List.ext_getElem? fun i => by simp [Function.comp_def]
  rw [replaceTimes_eq, overridden, hstarts, List.length_map]

lemma setTimes_eq_setStarts (h : values.map TimeValue.moment? = times.map some) :
    s.setTimes values = s.setStarts (replaceTimes (s.leaves.map (·.start)) s.stop times).1
      (some (replaceTimes (s.leaves.map (·.start)) s.stop times).2) := by
  rw [setTimes, TimeValue.resolveAll_eq_ok_iff.2 h, Except.ok_bind]

theorem setTimes_eq_error_iff : s.setTimes values = .error cause ↔
    (∃ i v, IsFirstUnreadable values i v ∧ cause = .invalidTime i v.toText) ∨
      ∃ times, values.map TimeValue.moment? = times.map some ∧
        ∃ i a b, IsLastDescent (s.overridden times) i a b ∧ cause = .boundaryViolation i a b := by
  unfold setTimes
  rw [Except.bind_eq_error_iff, TimeValue.resolveAll_eq_error_iff]
  simp only [Nat.zero_add, TimeValue.resolveAll_eq_ok_iff, setStarts_eq_error_iff, overridden_eq,
    reduceCtorEq, false_and, false_or, Option.some.injEq, exists_eq_left']

theorem exists_setTimes (h : values.map TimeValue.moment? = times.map some)
    (hchain : (s.overridden times).IsChain (· ≤ ·)) :
    ∃ s', s.setTimes values = .ok s' ∧
      s'.leaves.map ScaleLeaf.extent = (s.overridden times).zip (s.overridden times).tail := by
  rw [setTimes_eq_setStarts h]
  rw [overridden_eq] at hchain ⊢
  have hlength := length_replaceTimes (s.leaves.map (·.start)) s.stop times
  rw [List.length_map] at hlength
  obtain ⟨s', hs', hboundaries⟩ := exists_setStarts hlength hchain
  refine ⟨s', hs', ?_⟩
  rw [← boundaries_of_setStarts hlength hs']
  exact map_extent_eq (contiguous_of_setStarts hlength hs').1

/-- The boundaries that a scale has already are not refused and change nothing but the leaf where
the next search starts. -/
theorem setTimes_boundaries (hs : ScaleLeaf.Contiguous s.leaves)
    (hlengths : ∀ leaf ∈ s.leaves, leaf.length = leaf.start.durationTo leaf.stop)
    (h : values.map TimeValue.moment? = s.boundaries.map some) :
    s.setTimes values = .ok { s with hint := 0 } := by
  have hextents : ScaleLeaf.pairs (s.leaves.map (·.start)) s.stop = s.leaves.map ScaleLeaf.extent :=
    (hs.map_extent s.leaves_ne_nil).symm
  rw [setTimes_eq_setStarts h, boundaries, replaceTimes_self]
  refine setStarts_eq_ok_iff.2 ⟨s.stop, rfl, ?_, ?_⟩
  · rw [hextents]
    exact (ScaleLeaf.contiguous_iff.1 hs).1
  · rw [hextents, ScaleLeaf.setAllBounds_map_extent hlengths]
    exact ⟨s.leaves_ne_nil, rfl⟩

variable [Measure α]

/-- How a scale takes values for its boundaries when it is written over. A failure has one of two
causes and leaves the scale as it is. Without either, the leaves run from one overridden boundary to
the next. -/
structure TakesValues (s : TimeScale α) (values : List TimeValue) : Prop where
  eq_error_iff : ∀ cause s', (Edit.setTimes values).inPlace s = (.error cause, s') ↔ s' = s ∧
    ((∃ i v, IsFirstUnreadable values i v ∧ cause = .invalidTime i v.toText) ∨
      ∃ times, values.map TimeValue.moment? = times.map some ∧
        ∃ i a b, IsLastDescent (s.overridden times) i a b ∧ cause = .boundaryViolation i a b)
  exists_ok : ∀ times, values.map TimeValue.moment? = times.map some →
    (s.overridden times).IsChain (· ≤ ·) → ∃ s', (Edit.setTimes values).inPlace s = (.ok (), s') ∧
      s'.leaves.map ScaleLeaf.extent = (s.overridden times).zip (s.overridden times).tail
  boundaries_ok : values.map TimeValue.moment? = s.boundaries.map some →
    (Edit.setTimes values).inPlace s = (.ok (), { s with hint := 0 })

lemma takesValues (hs : ScaleLeaf.Contiguous s.leaves)
    (hlengths : ∀ leaf ∈ s.leaves, leaf.length = leaf.start.durationTo leaf.stop)
    (values : List TimeValue) : s.TakesValues values := by
  have hinPlace : (Edit.setTimes values).inPlace s = InPlace.settle s (s.setTimes values) :=
    (Edit.setTimes values).inPlace_eq s
  constructor
  case eq_error_iff =>
    intro cause s'
    rw [hinPlace, ← setTimes_eq_error_iff]
    exact InPlace.settle_eq_error_iff
  case exists_ok =>
    intro times hvalues hchain
    obtain ⟨s', hs', hextents⟩ := exists_setTimes hvalues hchain
    refine ⟨s', ?_, hextents⟩
    rw [hinPlace, hs', InPlace.settle]
  case boundaries_ok =>
    intro hvalues
    rw [hinPlace, setTimes_boundaries hs hlengths hvalues, InPlace.settle]

/-- After any run of edits and questions on a built scale, values for its boundaries are taken as
far as they go, unless one cannot be read or a leaf would end before it starts. -/
theorem setTimes_run {descriptors : List (ScaleDescriptor α)} {size : α} {built : TimeScale α}
    (h : build descriptors size = .ok built) (ops : List (Operation α))
    (values : List TimeValue) : (built.run ops).2.TakesValues values :=
  have hrun := wellFormed_run h ops
  takesValues hrun.contiguous hrun.length_eq values

/-- The last of two violations is reported, but not if a value cannot be read. The boundaries that
the scale has can be set. -/
theorem setTimes_run_quarters :
    ∃ built, build quarters (Measure.ofInt 100) = .ok built ∧
      let s := (built.run [.edit (.moveTo (.text "2025-02-01"))]).2
      (Edit.setTimes [.text "2025-06-01", .text "soon", .text "later"]).inPlace s =
        (.error (.invalidTime 1 "soon"), s) ∧
      (Edit.setTimes [.text "2025-06-01", .text "2025-03-01", .text "2026-01-01"]).inPlace s =
        (.error (.boundaryViolation 2 ⟨⟨2026, 1, 1, by decide⟩, .midnight⟩ s.stop), s) ∧
      (Edit.setTimes (s.boundaries.map .moment)).inPlace s = (.ok (), { s with hint := 0 }) := by
  let ops : List (Operation Float) := [.edit (.moveTo (.text "2025-02-01"))]
  let june : Moment := ⟨⟨2025, 6, 1, by decide⟩, .midnight⟩
  let march : Moment := ⟨⟨2025, 3, 1, by decide⟩, .midnight⟩
  let january : Moment := ⟨⟨2026, 1, 1, by decide⟩, .midnight⟩
  have hrun : (build quarters (Measure.ofInt 100)).toOption.any fun s =>
      let s' := (s.run ops).2
      s'.overridden [june, march, january] = [june, march, january, s'.stop] ∧
        s'.stop < january := by
    simp only [build, leafOrder_quarters]
    decide +kernel
  obtain ⟨built, hbuild, hs⟩ := Except.exists_of_any_toOption hrun
  obtain ⟨hoverridden, hlt⟩ := of_decide_eq_true hs
  have hsoon : IsFirstUnreadable [.text "2025-06-01", .text "soon", .text "later"] 1
      (.text "soon") := by
    refine IsFirstUnreadable.succ_iff.2 ⟨by decide +kernel, ?_⟩
    exact IsFirstUnreadable.zero_iff.2 ⟨rfl, by decide +kernel⟩
  have hlast : IsLastDescent [june, march, january, (built.run ops).2.stop] 2 january
      (built.run ops).2.stop :=
    .cons (.cons (.of_isChain (List.isChain_singleton _) rfl hlt) march) june
  refine ⟨built, hbuild, ?_, ?_, ?_⟩
  · exact ((setTimes_run hbuild ops _).eq_error_iff _ _).2 ⟨rfl, .inl ⟨1, _, hsoon, rfl⟩⟩
  · refine ((setTimes_run hbuild ops _).eq_error_iff _ _).2 ⟨rfl, .inr ?_⟩
    refine ⟨[june, march, january], by decide +kernel, 2, january, _, ?_, rfl⟩
    rw [hoverridden]
    exact hlast
  · refine (setTimes_run hbuild ops _).boundaries_ok ?_
    rw [List.map_map]
    rfl

end TimeScale

end Timeline
