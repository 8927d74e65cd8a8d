import Mathlib
import Timeline.Proofs.Scale.Proportion

/-! # Places on the axis

Over exact fractions a later moment has no smaller place on the axis, across leaves of any units and
lengths, and every place is between zero and the size. Leap seconds are the exception: a moment in
one is put after moments of the next second of the same leaf. -/
namespace Timeline.TimeScale
open ScaleLeaf

variable {s : TimeScale ℚ} {m m' : Moment} {x x' : ℚ}

lemma location_fst_eq (s : TimeScale ℚ) (m : Moment) : (s.location m).1 =
    ((s.findIndex m).1.bind (s.leaves[·]?)).map (·.location m) := by
  obtain ⟨index, -, hs⟩ := s.findIndex_snd m
  change ((s.findIndex m).1.bind ((s.findIndex m).2.leaves[·]?)).map _ = _
  rw [hs]

/-- A moment with a place lies in the leaf that is found for it. -/
lemma exists_of_location (hcontiguous : Contiguous s.leaves) (h : (s.location m).1 = some x) :
    ∃ i leaf, (s.findIndex m).1 = some i ∧ s.leaves[i]? = some leaf ∧ leaf.start ≤ m ∧
      m < leaf.stop ∧ leaf.location m = x := by
  rw [location_fst_eq] at h
  obtain ⟨leaf, hfound, hx⟩ := Option.map_eq_some_iff.1 h
  obtain ⟨i, hi, hleaf⟩ := Option.bind_eq_some_iff.1 hfound
  obtain ⟨⟨leaf', hleaf', hstart, hstop⟩, -⟩ := (findIndex_eq_some_iff hcontiguous m i).1 hi
  cases hleaf.symm.trans hleaf'
  exact ⟨i, leaf, hi, hleaf, hstart, hstop, hx⟩

lemma exists_location (hcontiguous : Contiguous s.leaves) (hstart : s.start ≤ m)
    (hstop : m < s.stop) : ∃ x, (s.location m).1 = some x := by
  have hleaf : s.leafAt? m ≠ none := by
    rw [ne_eq, leafAt?_eq_none_iff hcontiguous, not_or, not_lt, not_le]
    exact ⟨hstart, hstop⟩
  obtain ⟨leaf, hleaf⟩ := Option.ne_none_iff_exists'.1 hleaf
  exact ⟨leaf.location m, by rw [location_fst hcontiguous, locationAt?, hleaf, Option.map_some]⟩

/-- A leaf with some length is found at its own start. -/
lemma location_start (hcontiguous : Contiguous s.leaves)
    (hlength : ∀ leaf ∈ s.leaves, leaf.length = leaf.start.durationTo leaf.stop)
    {leaf : ScaleLeaf ℚ} (hleaf : leaf ∈ s.leaves) (hpos : 0 < leaf.length.nanos) :
    (s.location leaf.start).1 = some leaf.layoutStart := by
  obtain ⟨i, hi⟩ := List.mem_iff_getElem?.1 hleaf
  have hlt : leaf.start < leaf.stop := by
    refine (hcontiguous.ordered leaf hleaf).lt_of_ne fun heq => ?_
    rw [hlength leaf hleaf, ← heq, Moment.durationTo_self] at hpos
    exact absurd hpos (lt_irrefl 0)
  have hat : HasAt s.leaves leaf.start i := ⟨leaf, hi, le_refl _, hlt⟩
  have hindex : (s.findIndex leaf.start).1 = some i :=
    (findIndex_eq_some_iff hcontiguous _ _).2 ⟨hat, fun j hj => hj.unique hcontiguous hat⟩
  rw [location_fst_eq, hindex, Option.bind_some, hi, Option.map_some, location_eq, share_start,
    mul_zero, add_zero]

/-- A range goes from the place of its start to that of its end, or to the end of the scale. -/
lemma range_eq_some {r : LayoutRange ℚ} (hcontiguous : Contiguous s.leaves)
    (h : (s.range m m').1 = some r) : m < m' ∧ (s.location m).1 = some r.start ∧
      r.size = r.stop - r.start ∧ ((s.location m').1 = some r.stop ∨
        (s.findIndex m').1 = none ∧ r.stop = s.lastLeaf.layoutEnd) := by
  rw [range_fst hcontiguous, rangeBetween?] at h
  split_ifs at h with hle
  rw [location_fst hcontiguous, location_fst hcontiguous, locationAt?, locationAt?,
    findIndex_eq_none_iff hcontiguous, ← leafAt?_eq_none_iff hcontiguous]
  cases hstart : s.leafAt? m with
  | none => simp [hstart] at h
  | some leaf =>
    simp only [hstart, Option.some.injEq] at h
    subst h
    refine ⟨not_le.1 hle, rfl, rfl, ?_⟩
    cases hstop : s.leafAt? m' with
    | none => exact .inr ⟨rfl, by simp [rangeEnd, hstop]⟩
    | some leaf' => exact .inl (by simp [rangeEnd, hstop])

namespace Placed

lemma location_bounds (h : s.Placed) (hcontiguous : Contiguous s.leaves) (hsize : 0 ≤ s.size)
    (hx : (s.location m).1 = some x) : 0 ≤ x ∧ x ≤ s.size := by
  obtain ⟨i, leaf, -, hleaf, -, -, rfl⟩ := exists_of_location hcontiguous hx
  obtain ⟨hge, hle⟩ := h.location_mem hsize hleaf m
  have hi : i + 1 ≤ s.leaves.length := (List.getElem?_eq_some_iff.1 hleaf).1
  exact ⟨(h.edge_nonneg hsize i).trans hge, hle.trans (h.edge_le_size hsize hi)⟩

/-- The places of moments that lie in different leaves are ordered as these are. In one leaf they
are so outside of leap seconds, if the leaf does not start in one. -/
lemma location_le_location (h : s.Placed) (hcontiguous : Contiguous s.leaves) (hsize : 0 ≤ s.size)
    (hleap : ∀ leaf ∈ s.leaves, leaf.start.time.isLeap = false)
    (hx : (s.location m).1 = some x) (hx' : (s.location m').1 = some x') (hle : m ≤ m')
    (hsame : (s.findIndex m).1 = (s.findIndex m').1 →
      m.time.isLeap = false ∧ m'.time.isLeap = false) : x ≤ x' := by
  obtain ⟨i, leaf, hi, hleaf, hstart, -, rfl⟩ := exists_of_location hcontiguous hx
  obtain ⟨j, leaf', hj, hleaf', -, hstop', rfl⟩ := exists_of_location hcontiguous hx'
  rcases lt_trichotomy i j with hij | rfl | hji
  · calc leaf.location m ≤ s.edge (i + 1) := (h.location_mem hsize hleaf m).2
      _ ≤ s.edge j := h.edge_mono hsize hij
      _ ≤ leaf'.location m' := (h.location_mem hsize hleaf' m').1
  · cases hleaf.symm.trans hleaf'
    obtain ⟨hm, hm'⟩ := hsame (hi.trans hj.symm)
    have hfirst := hleap leaf (List.mem_of_getElem? hleaf)
    have hpassed : (leaf.start.durationTo m).nanos ≤ (leaf.start.durationTo m').nanos := by
      rw [Moment.nanos_durationTo hfirst hm, Moment.nanos_durationTo hfirst hm']
      exact Int.sub_le_sub_right (Moment.nanos_le_of_le hm hle) _
    have hnonneg := h.layoutSize_nonneg hsize hleaf
    rw [location_eq, location_eq]
    gcongr
    exact share_le_share hpassed
  · -- the later moment would lie in an earlier leaf
    have hends : leaf'.stop ≤ leaf.start := hcontiguous.stop_le_start hji hleaf' hleaf
    exact absurd (hstop'.trans_le (hends.trans (hstart.trans hle))) (lt_irrefl _)

end Placed

/-- What the layout of a scale says over exact fractions. -/
structure Proportional (s : TimeScale ℚ) : Prop where
  laidOut : LaidOut s.leaves
  lastLeaf_layoutEnd : s.lastLeaf.layoutEnd = s.size
  unitCount_eq : s.unitCount = totalUnit s.leaves
  layout_eq : ∀ leaf ∈ s.leaves, 0 < leaf.unit ∧
    leaf.layoutSize = s.size * leaf.unit / s.unitCount ∧
    leaf.layoutEnd = leaf.layoutStart + leaf.layoutSize
  location_le : ∀ m m', m.time.isLeap = false → m'.time.isLeap = false → s.start ≤ m → m ≤ m' →
    m' < s.stop → ∃ x x', (s.location m).1 = some x ∧ (s.location m').1 = some x' ∧
      0 ≤ x ∧ x ≤ x' ∧ x' ≤ s.size
  location_start : ∀ leaf ∈ s.leaves, 0 < leaf.length.nanos →
    (s.location leaf.start).1 = some leaf.layoutStart
  range_mem : ∀ m m' r, (s.range m m').1 = some r →
    0 ≤ r.start ∧ r.start ≤ s.size ∧ 0 ≤ r.stop ∧ r.stop ≤ s.size ∧ r.size = r.stop - r.start
  /-- Only a range within one leaf from or to a leap second may end before it starts. -/
  range_le : ∀ m m' r, (s.range m m').1 = some r →
    ((s.findIndex m).1 = (s.findIndex m').1 → m.time.isLeap = false ∧ m'.time.isLeap = false) →
      r.start ≤ r.stop ∧ 0 ≤ r.size

namespace Placed

lemma range_mem (h : s.Placed) (hcontiguous : Contiguous s.leaves) (hsize : 0 ≤ s.size)
    {r : LayoutRange ℚ} (hr : (s.range m m').1 = some r) :
    0 ≤ r.start ∧ r.start ≤ s.size ∧ 0 ≤ r.stop ∧ r.stop ≤ s.size ∧
      r.size = r.stop - r.start := by
  obtain ⟨-, hstart, hdiff, hstop⟩ := range_eq_some hcontiguous hr
  obtain ⟨hge, hle⟩ := h.location_bounds hcontiguous hsize hstart
  rcases hstop with hstop | ⟨-, hstop⟩
  · obtain ⟨hge', hle'⟩ := h.location_bounds hcontiguous hsize hstop
    exact ⟨hge, hle, hge', hle', hdiff⟩
  · rw [hstop, h.lastLeaf_layoutEnd] at hdiff ⊢
    exact ⟨hge, hle, hsize, le_refl _, hdiff⟩

lemma range_le (h : s.Placed) (hcontiguous : Contiguous s.leaves) (hsize : 0 ≤ s.size)
    (hleap : ∀ leaf ∈ s.leaves, leaf.start.time.isLeap = false)
    {r : LayoutRange ℚ} (hr : (s.range m m').1 = some r)
    (hsame : (s.findIndex m).1 = (s.findIndex m').1 →
      m.time.isLeap = false ∧ m'.time.isLeap = false) : r.start ≤ r.stop ∧ 0 ≤ r.size := by
  obtain ⟨hlt, hstart, hdiff, hstop⟩ := range_eq_some hcontiguous hr
  have hle : r.start ≤ r.stop := by
    rcases hstop with hstop | ⟨-, hstop⟩
    · exact h.location_le_location hcontiguous hsize hleap hstart hstop hlt.le hsame
    · rw [hstop, h.lastLeaf_layoutEnd]
      exact (h.location_bounds hcontiguous hsize hstart).2
  exact ⟨hle, hdiff ▸ sub_nonneg.2 hle⟩

end Placed

/-- After any run of edits and questions on a built scale whose size is not negative and whose
boundaries are not in leap seconds, the leaves fill the axis in proportion to their units, and
places on it do not decrease. -/
theorem proportional_run {ds : List (ScaleDescriptor ℚ)} {size : ℚ} {built : TimeScale ℚ}
    (h : build ds size = .ok built) (ops : List (Operation ℚ))
    (hsize : 0 ≤ (built.run ops).2.size)
    (hleap : ∀ leaf ∈ (built.run ops).2.leaves,
      leaf.start.time.isLeap = false ∧ leaf.stop.time.isLeap = false) :
    (built.run ops).2.Proportional := by
  have hplaced := placed_run h ops
  have hformed := wellFormed_run h ops
  have hcontiguous := hformed.contiguous
  generalize (built.run ops).2 = s at *
  have hstarts : ∀ leaf ∈ s.leaves, leaf.start.time.isLeap = false :=
    fun leaf hleaf => (hleap leaf hleaf).1
  refine ⟨hformed.laidOut, hplaced.lastLeaf_layoutEnd, hplaced.unitCount_eq, ?_, ?_, ?_, ?_, ?_⟩
  · intro leaf hleaf
    obtain ⟨i, hi⟩ := List.mem_iff_getElem?.1 hleaf
    exact ⟨hplaced.unit_pos leaf hleaf, (hplaced.layout_eq hi).2.1, hplaced.layoutEnd_eq hi⟩
  · intro m m' hm hm' hstart hle hstop
    obtain ⟨x, hx⟩ := exists_location hcontiguous hstart (hle.trans_lt hstop)
    obtain ⟨x', hx'⟩ := exists_location hcontiguous (hstart.trans hle) hstop
    exact ⟨x, x', hx, hx', (hplaced.location_bounds hcontiguous hsize hx).1,
      hplaced.location_le_location hcontiguous hsize hstarts hx hx' hle fun _ => ⟨hm, hm'⟩,
      (hplaced.location_bounds hcontiguous hsize hx').2⟩
  · exact fun leaf hleaf => location_start hcontiguous hformed.length_eq hleaf
  · exact fun m m' r => hplaced.range_mem hcontiguous hsize
  · exact fun m m' r => hplaced.range_le hcontiguous hsize hstarts

/-- A day, a leaf that contains nothing, and two days with twice the unit. -/
def days : List (ScaleDescriptor ℚ) :=
  [⟨"1", some 1, some "2024-01-01", none, none⟩, ⟨"2", none, some "2024-01-02", none, none⟩,
    ⟨"3", some 2, some "2024-01-02", some "2024-01-04", none⟩]

/-- Half a second into the leap second after the first noon. -/
def inLeapSecond : Moment := ⟨⟨2024, 1, 1, by decide⟩, ⟨12, 0, 59, 1500000000, by decide⟩⟩

/-- A fifth of a second after that leap second. -/
def afterLeapSecond : Moment := ⟨⟨2024, 1, 1, by decide⟩, ⟨12, 1, 0, 200000000, by decide⟩⟩

/-- Moves a scale to a February and gives it another size. -/
def toFebruary : List (Operation ℚ) :=
  [.edit (.moveTo (.text "2024-02-01")), .edit (.setSize 400)]

lemma leafOrder_days : leafOrder (ScaleGroup.ofDescriptors days) = [0, 1, 2] :=
  leafOrder_eq (by decide) (by decide)

theorem proportional_run_days :
    ∃ built, build days 345600000 = .ok built ∧ (built.run toFebruary).2.Proportional := by
  have hbuild : (build days 345600000).toOption.any (fun built => decide (
      0 ≤ (built.run toFebruary).2.size ∧ ∀ leaf ∈ (built.run toFebruary).2.leaves,
        leaf.start.time.isLeap = false ∧ leaf.stop.time.isLeap = false)) = true := by
    simp only [build, leafOrder_days]
    decide +kernel
  obtain ⟨built, hbuilt, h⟩ := Except.exists_of_any_toOption hbuild
  obtain ⟨hsize, hleap⟩ := of_decide_eq_true h
  exact ⟨built, hbuilt, proportional_run hbuilt _ hsize hleap⟩

/-- A range out of a leap second may end on the axis before it starts. -/
theorem range_inLeapSecond :
    ∃ built, build days 345600000 = .ok built ∧ 0 ≤ built.size ∧
      (∀ leaf ∈ built.leaves, leaf.start.time.isLeap = false ∧ leaf.stop.time.isLeap = false) ∧
      ∃ r, (built.range inLeapSecond afterLeapSecond).1 = some r ∧ r.stop < r.start ∧
        r.size < 0 := by
  have hbuild : (build days 345600000).toOption.any (fun built => decide (0 ≤ built.size ∧
      (∀ leaf ∈ built.leaves, leaf.start.time.isLeap = false ∧ leaf.stop.time.isLeap = false) ∧
      (built.range inLeapSecond afterLeapSecond).1 = some ⟨43260500, 43260200, -300⟩)) = true := by
    simp only [build, leafOrder_days]
    decide +kernel
  obtain ⟨built, hbuilt, h⟩ := Except.exists_of_any_toOption hbuild
  obtain ⟨hsize, hleap, hrange⟩ := of_decide_eq_true h
  exact ⟨built, hbuilt, hsize, hleap, _, hrange, by norm_num, by norm_num⟩

end Timeline.TimeScale
