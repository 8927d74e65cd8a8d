import Timeline.Proofs.Calendar.Midnight
import Timeline.Proofs.Scale.Contiguity

/-! # Lengths of leaves

Boundaries are checked by their order, but a leaf is as long as the time that passes from its start
to its end. The two agree unless a leaf starts in the leap second at the end of a day and ends in
the first second of the next one. -/
namespace Timeline
open Calendar

namespace ScaleLeaf

variable {α : Type}

/-- What the length of a leaf says of its start and its end. -/
structure Measured (leaf : ScaleLeaf α) : Prop where
  nonneg : ¬ leaf.start.LeapsMidnight leaf.stop → 0 ≤ leaf.length.nanos
  eq_zero_iff : ¬ leaf.start.LeapsMidnight leaf.stop →
    (leaf.length.nanos = 0 ↔ leaf.start = leaf.stop)
  start_lt : leaf.start.LeapsMidnight leaf.stop → leaf.start < leaf.stop
  nanos_eq : leaf.start.LeapsMidnight leaf.stop →
    leaf.length.nanos = nanosPerSecond + leaf.stop.time.nano - leaf.start.time.nano
  lost : leaf.start.LeapsMidnight leaf.stop →
    -(nanosPerSecond : Int) < leaf.length.nanos ∧ leaf.length.nanos ≤ 0

lemma measured {leaf : ScaleLeaf α} (hle : leaf.start ≤ leaf.stop)
    (hlength : leaf.length = leaf.start.durationTo leaf.stop) : leaf.Measured := by
  constructor
  case nonneg => exact fun hleap => hlength ▸ Moment.durationTo_nonneg hle hleap
  case eq_zero_iff => exact fun hleap => hlength ▸ Moment.durationTo_eq_zero_iff hle hleap
  case start_lt => exact fun hleap => hleap.lt
  case nanos_eq => exact fun hleap => hlength ▸ hleap.nanos_durationTo
  case lost =>
    intro hleap
    obtain ⟨-, -, -, hnano⟩ := leaf.start.time.bounds
    have hpassed := hleap.passed
    rw [hlength, hleap.nanos_durationTo]
    omega

end ScaleLeaf

namespace TimeScale

/-- After any run of edits and questions on a built scale, no leaf is shorter than nothing and only
an empty one has no length, except a leaf that leaps midnight. For moments that do not leap midnight
the check by order and the time between them agree on which one is later. -/
theorem lengths_run {α : Type} [Measure α] {descriptors : List (ScaleDescriptor α)} {size : α}
    {built : TimeScale α} (h : build descriptors size = .ok built) (ops : List (Operation α)) :
    (∀ leaf ∈ (built.run ops).2.leaves, leaf.Measured) ∧
      ∀ a b : Moment, ¬ a.LeapsMidnight b → ¬ b.LeapsMidnight a →
        (a < b ↔ 0 < (a.durationTo b).nanos) := by
  have hrun := wellFormed_run h ops
  refine ⟨fun leaf hleaf => ?_, fun a b => Moment.lt_iff_durationTo_pos⟩
  exact ScaleLeaf.measured (hrun.contiguous.ordered leaf hleaf) (hrun.length_eq leaf hleaf)

/-- The scale starts in the leap second at the end of a year. -/
def newYear : List (ScaleDescriptor Float) :=
  [⟨"2016", none, some "2016-12-31T23:59:60.5Z", none, none⟩,
    ⟨"2017", none, some "2017-01-01", some "2018-01-01", none⟩]

lemma leafOrder_newYear : leafOrder (ScaleGroup.ofDescriptors newYear) = [0, 1] :=
  leafOrder_eq (by decide) (by decide)

/-- Moves the start of a scale to the start of the leap second. -/
def toLeapSecond : Operation Float := .edit (.setTimes [.text "2016-12-31T23:59:60Z"])

/-- The first leaf leaps midnight from the start of the leap second, the last one does not. -/
theorem lengths_run_newYear :
    ∃ built, build newYear (Measure.ofInt 100) = .ok built ∧
      let moved := (built.run [toLeapSecond]).2
      moved.firstLeaf.length.nanos = nanosPerSecond + moved.firstLeaf.stop.time.nano -
          moved.firstLeaf.start.time.nano ∧
        0 ≤ moved.lastLeaf.length.nanos ∧
        (.origin < moved.stop ↔ 0 < (Moment.origin.durationTo moved.stop).nanos) := by
  have hrun : (build newYear (Measure.ofInt 100)).toOption.any fun built =>
      let moved := (built.run [toLeapSecond]).2
      moved.firstLeaf.start.LeapsMidnight moved.firstLeaf.stop ∧
        ¬ moved.lastLeaf.start.LeapsMidnight moved.lastLeaf.stop ∧
        ¬ Moment.origin.LeapsMidnight moved.stop ∧ ¬ moved.stop.LeapsMidnight .origin := by
    simp only [build, leafOrder_newYear]
    decide +kernel
  obtain ⟨built, hbuild, hmoved⟩ := Except.exists_of_any_toOption hrun
  obtain ⟨hfirst, hlast, horigin, hstop⟩ := of_decide_eq_true hmoved
  obtain ⟨hleaves, hagree⟩ := lengths_run hbuild [toLeapSecond]
  exact ⟨built, hbuild, (hleaves _ (List.head_mem _)).nanos_eq hfirst,
    (hleaves _ (List.getLast_mem _)).nonneg hlast, hagree _ _ horigin hstop⟩

/-- The first leaf is shorter than nothing, and from the start of the leap second it has no length,
though both times it starts before it ends. -/
theorem length_overMidnight :
    ∃ built, build newYear (Measure.ofInt 100) = .ok built ∧
      (built.firstLeaf.start < built.firstLeaf.stop ∧
        built.firstLeaf.length = ⟨-500000000⟩) ∧
      let moved := (built.run [toLeapSecond]).2
      moved.firstLeaf.start < moved.firstLeaf.stop ∧ moved.firstLeaf.length = ⟨0⟩ := by
  have hrun : (build newYear (Measure.ofInt 100)).toOption.any fun built =>
      (built.firstLeaf.start < built.firstLeaf.stop ∧
        built.firstLeaf.length = ⟨-500000000⟩) ∧
      let moved := (built.run [toLeapSecond]).2
      moved.firstLeaf.start < moved.firstLeaf.stop ∧ moved.firstLeaf.length = ⟨0⟩ := by
    simp only [build, leafOrder_newYear]
    decide +kernel
  obtain ⟨built, hbuild, h⟩ := Except.exists_of_any_toOption hrun
  exact ⟨built, hbuild, of_decide_eq_true h⟩

end TimeScale

end Timeline
