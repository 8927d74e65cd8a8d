import Mathlib
import Timeline.Proofs.Calendar.Elapsed
import Timeline.Proofs.Scale.Restoration

/-! # Proportions

The layout of a scale read over exact fractions. Each leaf ends where the units up to it have their
share of the size, so the leaves fill the axis from zero to the size; and within a leaf a moment
lies where its share of the time has passed. -/
namespace Timeline

instance : Measure ℚ where
  ofInt n := n
  less x y := x < y
  isFinite _ := true

namespace Measure

lemma clamp_rat (low high x : ℚ) : clamp low high x = min (max low x) high := by
  simp only [clamp, less, decide_eq_true_eq]
  split_ifs <;> grind

lemma sum_rat (xs : List ℚ) : Measure.sum xs = xs.sum := by
  simp [Measure.sum, zero, ofInt, List.sum_eq_foldl]

end Measure

lemma Duration.millis_rat (d : Duration) : (d.millis : ℚ) = d.nanos / 1000000 := by
  have hparts : (d.nanos : ℚ) =
      (d.nanos.tdiv 1000000 : ℤ) * 1000000 + (d.nanos.tmod 1000000 : ℤ) := by
    exact_mod_cast (Int.tdiv_mul_add_tmod d.nanos 1000000).symm
  change ((d.nanos.tdiv 1000000 : ℤ) : ℚ) + ((d.nanos.tmod 1000000 : ℤ) : ℚ) / ((1000000 : ℤ) : ℚ) =
    d.nanos / 1000000
  rw [hparts]
  push_cast
  ring

lemma ScaleDescriptor.unit_pos (d : ScaleDescriptor ℚ) : 0 < d.unit := by
  have hone : (0 : ℚ) < Measure.one := by decide
  unfold unit
  split
  · split_ifs with hweight
    · simpa [Measure.less, Measure.zero, Measure.ofInt, Measure.isFinite] using hweight
    · exact hone
  · exact hone

namespace ScaleLeaf

def totalUnit (leaves : List (ScaleLeaf ℚ)) : ℚ := (leaves.map (·.unit)).sum

lemma totalUnit_concat (leaves : List (ScaleLeaf ℚ)) (leaf : ScaleLeaf ℚ) :
    totalUnit (leaves ++ [leaf]) = totalUnit leaves + leaf.unit := by
  simp [totalUnit]

lemma place_append (unitSize offset : ℚ) (leaves leaves' : List (ScaleLeaf ℚ)) :
    place unitSize offset (leaves ++ leaves') = place unitSize offset leaves ++
      place unitSize (offset + unitSize * totalUnit leaves) leaves' := by
  induction leaves generalizing offset with
  | nil => simp [place, totalUnit]
  | cons leaf leaves ih =>
    have hoffset : offset + unitSize * leaf.unit + unitSize * totalUnit leaves =
        offset + unitSize * totalUnit (leaf :: leaves) := by
      simp only [totalUnit, List.map_cons, List.sum_cons]
      ring
    simp only [List.cons_append, place, ← hoffset, ← ih]

/-- A leaf is put after the units before it. -/
lemma layout_of_place_eq {unitSize : ℚ} {leaves : List (ScaleLeaf ℚ)}
    (h : place unitSize 0 leaves = leaves) {i : Nat} {leaf : ScaleLeaf ℚ}
    (hleaf : leaves[i]? = some leaf) :
    leaf.layoutStart = unitSize * totalUnit (leaves.take i) ∧
      leaf.layoutSize = unitSize * leaf.unit ∧
      leaf.layoutEnd = unitSize * totalUnit (leaves.take (i + 1)) := by
  obtain ⟨hi, rfl⟩ := List.getElem?_eq_some_iff.1 hleaf
  have hsplit : leaves = leaves.take i ++ leaves[i] :: leaves.drop (i + 1) := by
    rw [← List.drop_eq_getElem_cons hi, List.take_append_drop]
  have htail : leaves[i] :: leaves.drop (i + 1) = place unitSize
      (0 + unitSize * totalUnit (leaves.take i)) (leaves[i] :: leaves.drop (i + 1)) := by
    have hplaced := h
    rw [hsplit, place_append] at hplaced
    exact (List.append_inj_right hplaced (length_place _ _ _)).symm
  have hplaced := (List.cons.inj htail).1
  have hstart := congrArg layoutStart hplaced
  have hsize := congrArg layoutSize hplaced
  have hend := congrArg layoutEnd hplaced
  simp only [zero_add] at hstart hsize hend
  refine ⟨hstart, hsize, hend.trans ?_⟩
  rw [List.take_add_one, hleaf, Option.toList_some, totalUnit_concat]
  exact (mul_add _ _ _).symm

/-- The part of the time of a leaf that has passed at a moment. -/
def share (leaf : ScaleLeaf ℚ) (m : Moment) : ℚ :=
  if 0 < leaf.length.nanos then
    (min (max 0 (leaf.start.durationTo m).nanos) leaf.length.nanos : ℤ) / leaf.length.nanos
  else 0

variable {leaf : ScaleLeaf ℚ}

lemma clamp_millis (length passed : Duration) :
    Measure.clamp Measure.zero (length.millis : ℚ) passed.millis =
      (min (max 0 passed.nanos) length.nanos : ℤ) / 1000000 := by
  have hnonneg : (0 : ℚ) ≤ 1000000 := by norm_num
  have hzero : (Measure.zero : ℚ) = 0 / 1000000 := by
    rw [zero_div]
    exact Int.cast_zero
  rw [Measure.clamp_rat, Duration.millis_rat, Duration.millis_rat, hzero,
    max_div_div_right hnonneg, min_div_div_right hnonneg]
  push_cast
  rfl

lemma location_eq (leaf : ScaleLeaf ℚ) (m : Moment) :
    leaf.location m = leaf.layoutStart + leaf.layoutSize * leaf.share m := by
  have hless : Measure.less Measure.zero (leaf.length.millis : ℚ) =
      decide (0 < leaf.length.nanos) := by
    rw [Duration.millis_rat]
    simp [Measure.less, Measure.zero, Measure.ofInt]
  unfold location share
  simp only [hless, decide_eq_true_eq, clamp_millis]
  split_ifs with hlength
  · have hlength : (0 : ℚ) < leaf.length.nanos := Int.cast_pos.2 hlength
    rw [Duration.millis_rat]
    field_simp
  · rw [mul_zero, add_zero]

lemma share_nonneg (leaf : ScaleLeaf ℚ) (m : Moment) : 0 ≤ leaf.share m := by
  unfold share
  split_ifs with hlength
  · have hlength : (0 : ℚ) < leaf.length.nanos := Int.cast_pos.2 hlength
    positivity
  · exact le_refl 0

lemma share_le_one (leaf : ScaleLeaf ℚ) (m : Moment) : leaf.share m ≤ 1 := by
  unfold share
  split_ifs with hlength
  · have hlength : (0 : ℚ) < leaf.length.nanos := Int.cast_pos.2 hlength
    have hmin : min (max 0 (leaf.start.durationTo m).nanos) leaf.length.nanos ≤
        leaf.length.nanos := min_le_right _ _
    exact (div_le_one hlength).2 (by exact_mod_cast hmin)
  · exact zero_le_one

lemma share_le_share {m m' : Moment}
    (h : (leaf.start.durationTo m).nanos ≤ (leaf.start.durationTo m').nanos) :
    leaf.share m ≤ leaf.share m' := by
  unfold share
  split_ifs with hlength
  · have hlength : (0 : ℚ) < leaf.length.nanos := Int.cast_pos.2 hlength
    have h : ((leaf.start.durationTo m).nanos : ℚ) ≤ (leaf.start.durationTo m').nanos := by
      exact_mod_cast h
    gcongr
  · exact le_refl 0

lemma share_start (leaf : ScaleLeaf ℚ) : leaf.share leaf.start = 0 := by
  unfold share
  split_ifs with hlength
  · simp [Moment.durationTo_self, hlength.le]
  · rfl

end ScaleLeaf

namespace TimeScale
open ScaleLeaf

/-- What the layout of a scale is made from, and that it is the one for its size. -/
structure Placed (s : TimeScale ℚ) : Prop where
  unit_pos : ∀ leaf ∈ s.leaves, 0 < leaf.unit
  unitCount_eq : s.unitCount = totalUnit s.leaves
  place_eq : place (unitSize s.size s.unitCount) 0 s.leaves = s.leaves

lemma unitCount_of_build {ds : List (ScaleDescriptor ℚ)} {size : ℚ} {built : TimeScale ℚ}
    (h : build ds size = .ok built) : built.unitCount = totalUnit built.leaves := by
  obtain ⟨-, stop, -, -, hbuild⟩ := exists_of_build h
  obtain ⟨hbounded, hbuild⟩ := hbuild size
  cases h.symm.trans hbuild
  change Measure.sum _ = totalUnit (place _ _ (setAllBounds _ _))
  rw [totalUnit, map_place fun _ _ _ _ => rfl, map_setAllBounds fun _ _ _ => rfl,
    Measure.sum_rat]

theorem placed_run {ds : List (ScaleDescriptor ℚ)} {size : ℚ} {built : TimeScale ℚ}
    (h : build ds size = .ok built) (ops : List (Operation ℚ)) : (built.run ops).2.Placed := by
  have hrestorable : built.Restorable (built.run ops).2 :=
    run_induction (restorable_of_build h) (fun _ op hs => hs.perform op) ops
  have hunits : (built.run ops).2.leaves.map (·.unit) = built.leaves.map (·.unit) := by
    have htemplate := congrArg (List.map (·.2.2)) hrestorable.template_eq
    rwa [List.map_map, List.map_map] at htemplate
  refine ⟨fun leaf hleaf => ?_, ?_, hrestorable.place_eq⟩
  · have hmem : leaf.template ∈ templateOf ds := by
      rw [← (wellFormed_run h ops).template_eq]
      exact List.mem_map_of_mem hleaf
    obtain ⟨d, -, hd⟩ := List.mem_map.1 hmem
    have hunit : d.unit = leaf.unit := congrArg (·.2.2) hd
    exact hunit ▸ d.unit_pos
  · rw [hrestorable.unitCount_eq, unitCount_of_build h, totalUnit, totalUnit, hunits]

/-- Where on the axis the leaf with an index starts and the one before it ends: at the share of the
units up to there. -/
def edge (s : TimeScale ℚ) (i : Nat) : ℚ := s.size * totalUnit (s.leaves.take i) / s.unitCount

variable {s : TimeScale ℚ} {i : Nat} {leaf : ScaleLeaf ℚ}

namespace Placed

lemma unitCount_pos (h : s.Placed) : 0 < s.unitCount := by
  rw [h.unitCount_eq]
  refine List.sum_pos _ (List.forall_mem_map.2 h.unit_pos) ?_
  simpa using s.leaves_ne_nil

lemma layout_eq (h : s.Placed) (hleaf : s.leaves[i]? = some leaf) :
    leaf.layoutStart = s.edge i ∧ leaf.layoutSize = s.size * leaf.unit / s.unitCount ∧
      leaf.layoutEnd = s.edge (i + 1) := by
  have hunitSize : unitSize s.size s.unitCount = s.size / s.unitCount :=
    if_pos (decide_eq_true h.unitCount_pos)
  have hplace := h.place_eq
  rw [hunitSize] at hplace
  obtain ⟨hstart, hsize, hend⟩ := layout_of_place_eq hplace hleaf
  refine ⟨hstart.trans ?_, hsize.trans ?_, hend.trans ?_⟩ <;> exact div_mul_eq_mul_div _ _ _

lemma edge_zero (s : TimeScale ℚ) : s.edge 0 = 0 := by
  simp [edge, totalUnit]

lemma edge_length (h : s.Placed) : s.edge s.leaves.length = s.size := by
  rw [edge, List.take_length, ← h.unitCount_eq, mul_div_cancel_right₀ _ h.unitCount_pos.ne']

lemma edge_succ (hleaf : s.leaves[i]? = some leaf) :
    s.edge (i + 1) = s.edge i + s.size * leaf.unit / s.unitCount := by
  rw [edge, edge, List.take_add_one, hleaf, Option.toList_some, totalUnit_concat]
  ring

lemma layoutEnd_eq (h : s.Placed) (hleaf : s.leaves[i]? = some leaf) :
    leaf.layoutEnd = leaf.layoutStart + leaf.layoutSize := by
  obtain ⟨hstart, hsize, hend⟩ := h.layout_eq hleaf
  rw [hstart, hsize, hend, edge_succ hleaf]

lemma edge_mono (h : s.Placed) (hsize : 0 ≤ s.size) : Monotone s.edge := by
  refine monotone_nat_of_le_succ fun i => ?_
  cases hleaf : s.leaves[i]? with
  | none => simp [edge, List.take_add_one, hleaf]
  | some leaf =>
    have hunit := h.unit_pos leaf (List.mem_of_getElem? hleaf)
    have hcount := h.unitCount_pos
    rw [edge_succ hleaf]
    exact le_add_of_nonneg_right (by positivity)

lemma edge_nonneg (h : s.Placed) (hsize : 0 ≤ s.size) (i : Nat) : 0 ≤ s.edge i := by
  rw [← edge_zero s]
  exact h.edge_mono hsize (Nat.zero_le i)

lemma edge_le_size (h : s.Placed) (hsize : 0 ≤ s.size) (hi : i ≤ s.leaves.length) :
    s.edge i ≤ s.size := by
  rw [← h.edge_length]
  exact h.edge_mono hsize hi

lemma lastLeaf_layoutEnd (h : s.Placed) : s.lastLeaf.layoutEnd = s.size := by
  have hlength : s.leaves.length - 1 + 1 = s.leaves.length :=
    Nat.succ_pred_eq_of_pos (List.length_pos_iff.2 s.leaves_ne_nil)
  have hlast : s.leaves[s.leaves.length - 1]? = some s.lastLeaf := by
    rw [← List.getLast?_eq_getElem?]
    exact List.getLast?_eq_some_getLast s.leaves_ne_nil
  rw [(h.layout_eq hlast).2.2, hlength, h.edge_length]

lemma layoutSize_nonneg (h : s.Placed) (hsize : 0 ≤ s.size) (hleaf : s.leaves[i]? = some leaf) :
    0 ≤ leaf.layoutSize := by
  have hunit := h.unit_pos leaf (List.mem_of_getElem? hleaf)
  have hcount := h.unitCount_pos
  rw [(h.layout_eq hleaf).2.1]
  positivity

/-- A moment is put between the edges of its leaf. -/
lemma location_mem (h : s.Placed) (hsize : 0 ≤ s.size) (hleaf : s.leaves[i]? = some leaf)
    (m : Moment) : s.edge i ≤ leaf.location m ∧ leaf.location m ≤ s.edge (i + 1) := by
  obtain ⟨hstart, -, hend⟩ := h.layout_eq hleaf
  have hnonneg := h.layoutSize_nonneg hsize hleaf
  rw [← hstart, ← hend, h.layoutEnd_eq hleaf, location_eq]
  constructor
  · exact le_add_of_nonneg_right (mul_nonneg hnonneg (leaf.share_nonneg m))
  · gcongr
    exact mul_le_of_le_one_right hnonneg (leaf.share_le_one m)

end Placed

end TimeScale

end Timeline
