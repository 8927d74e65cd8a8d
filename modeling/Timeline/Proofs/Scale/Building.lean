import Timeline.Proofs.Scale.Descent
import Timeline.Proofs.Scale.Restoration

/-! # Building

Which times of the descriptors count. A scale takes the starts of the descriptors of its leaves, in
their order, and the end of the last of these. No other time has a part in whether it can be built,
or in the times of its leaves. -/
namespace Timeline

variable {α : Type}

namespace ScaleDescriptor

/-- Where the paths of leaves stand in a list. No path of the list goes on from the path of a leaf,
and what counts is the last place where it stands. -/
def leafPlaces (paths : List (List String)) : List Nat :=
  (paths.zipIdx.filter fun x =>
    ∀ y ∈ paths.zipIdx, x.1 <+: y.1 → y.1 = x.1 ∧ y.2 ≤ x.2).map Prod.snd

/-- The starts of the leaves, where one that is missing or cannot be read is the first midnight of
1970. -/
def leafStarts (ds : List (ScaleDescriptor α)) : List Moment :=
  (leafPlaces (ds.map path)).filterMap fun i => ds[i]?.map fun d =>
    (d.startText.bind Moment.ofText?).getD ⟨⟨1970, 1, 1, Date.origin.valid⟩, .midnight⟩

/-- The end of the last leaf, if it can be read. -/
def lastStop? (ds : List (ScaleDescriptor α)) : Option Moment :=
  (leafPlaces (ds.map path)).getLast?.bind fun i => ds[i]?.bind fun d =>
    d.endText.bind Moment.ofText?

variable {ds : List (ScaleDescriptor α)} {paths : List (List String)} {i : Nat}

lemma pairwise_leafPlaces (paths : List (List String)) : (leafPlaces paths).Pairwise (· < ·) := by
  have hplaces : (paths.zipIdx.map Prod.snd).Pairwise (· < ·) := by
    rw [List.zipIdx_map_snd]
    exact List.pairwise_lt_range' 1
  exact hplaces.sublist (List.filter_sublist.map Prod.snd)

lemma mem_leafPlaces_iff : i ∈ leafPlaces paths ↔ ∃ p, paths[i]? = some p ∧
    ∀ j q, paths[j]? = some q → p <+: q → q = p ∧ j ≤ i := by
  simp only [leafPlaces, List.mem_map, List.mem_filter, Prod.exists, exists_eq_right,
    List.mem_zipIdx_iff_getElem?, decide_eq_true_eq, Prod.forall]
  exact exists_congr fun p => and_congr_right fun _ => forall_comm

lemma mem_leafPlaces_map_path_iff :
    i ∈ leafPlaces (ds.map path) ↔ ∃ p, IsLeafPath ds p ∧ IsGreatest (places ds p) i := by
  simp only [mem_leafPlaces_iff, List.getElem?_map, Option.map_eq_some_iff]
  constructor
  · rintro ⟨_, ⟨d, hd, rfl⟩, h⟩
    refine ⟨d.path, ⟨⟨d, List.mem_of_getElem? hd, rfl⟩, fun e he huses => ?_⟩, ⟨d, hd, rfl⟩, ?_⟩
    · obtain ⟨j, hj⟩ := List.mem_iff_getElem?.1 he
      exact (h j _ ⟨e, hj, rfl⟩ huses).1
    · rintro j ⟨e, he, hpath⟩
      exact (h j _ ⟨e, he, rfl⟩ (hpath ▸ List.prefix_rfl)).2
  · rintro ⟨p, ⟨-, hleaf⟩, hi, hmax⟩
    refine ⟨p, hi, ?_⟩
    rintro j _ ⟨e, he, rfl⟩ huses
    have hpath := hleaf e (List.mem_of_getElem? he) huses
    exact ⟨hpath, hmax ⟨e, he, hpath⟩⟩

/-- Descriptors with the same paths that say the same of the start of every leaf and of the end of
the last one. -/
structure SameLeafTimes (ds ds' : List (ScaleDescriptor α)) : Prop where
  paths_eq : ds.map path = ds'.map path
  start_eq : ∀ i ∈ leafPlaces (ds.map path), ds[i]?.map start = ds'[i]?.map start
  stop?_eq : ∀ i ∈ (leafPlaces (ds.map path)).getLast?, ds[i]?.bind stop? = ds'[i]?.bind stop?

namespace SameLeafTimes

variable {ds' : List (ScaleDescriptor α)}

lemma eq_nil_iff (h : SameLeafTimes ds ds') : ds = [] ↔ ds' = [] := by
  rw [← List.map_eq_nil_iff (f := path), h.paths_eq, List.map_eq_nil_iff]

lemma leafStarts_eq (h : SameLeafTimes ds ds') : leafStarts ds = leafStarts ds' := by
  rw [leafStarts, leafStarts, ← h.paths_eq]
  exact List.filterMap_congr h.start_eq

lemma lastStop?_eq (h : SameLeafTimes ds ds') : lastStop? ds = lastStop? ds' := by
  rw [lastStop?, lastStop?, ← h.paths_eq]
  exact Option.bind_congr h.stop?_eq

end SameLeafTimes

end ScaleDescriptor

namespace ScaleLeaf

def times (leaf : ScaleLeaf α) : Moment × Moment × Duration :=
  (leaf.start, leaf.stop, leaf.length)

lemma map_times_setAllBounds {leaves : List (ScaleLeaf α)} {bs : List (Moment × Moment)}
    (h : bs.length = leaves.length) : (setAllBounds leaves bs).map times =
      bs.map fun p => (p.1, p.2, p.1.durationTo p.2) := by
  rw [← map_extent_setAllBounds h, List.map_map, map_extent_setAllBounds h]
  refine List.map_congr_left fun leaf hleaf => ?_
  rw [times, length_of_mem_setAllBounds h leaf hleaf]
  rfl

end ScaleLeaf

namespace TimeScale
open ScaleDescriptor ScaleGroup

variable {ds ds' : List (ScaleDescriptor α)} {s : TimeScale α} {cause : ScaleError}

lemma leafOrder_ofDescriptors (ds : List (ScaleDescriptor α)) :
    leafOrder (ofDescriptors ds) = leafPlaces (ds.map path) :=
  (pairwise_leafOrder ds).eq_of_mem_iff (pairwise_leafPlaces _) fun _ =>
    mem_leafOrder_iff.trans mem_leafPlaces_map_path_iff.symm

variable [Measure α]

lemma map_defaultStart_items (ds : List (ScaleDescriptor α)) :
    (items ds).map (·.defaultStart) = leafStarts ds := by
  rw [items, leafOrder_ofDescriptors, List.map_map, List.map_filterMap]
  rfl

lemma defaultStop_getLast_items (h : items ds ≠ []) :
    ((items ds).getLast h).defaultStop = lastStop? ds := by
  have hitems := forall₂_items ds
  rw [leafOrder_ofDescriptors] at hitems
  obtain hnil | ⟨places, i, hplaces⟩ := List.eq_nil_or_concat' (leafPlaces (ds.map path))
  · rw [hnil, List.forall₂_nil_left_iff] at hitems
    exact absurd hitems h
  obtain hnil | ⟨leaves, leaf, hleaves⟩ := List.eq_nil_or_concat' (items ds)
  · exact absurd hnil h
  rw [hplaces, hleaves] at hitems
  obtain ⟨d, hd, hleaf⟩ := (List.forall₂_concat_iff.1 hitems).2
  rw [lastStop?, hplaces, List.getLast?_concat, Option.bind_some, hd, Option.bind_some]
  simp only [hleaves, List.getLast_concat, hleaf]
  rfl

lemma restore_items (h : items ds ≠ []) (size : α) :
    restore ⟨tree ds, items ds, Measure.sum ((items ds).map (·.unit)), size, 0, h⟩ =
      setStarts ⟨tree ds, items ds, Measure.sum ((items ds).map (·.unit)), size, 0, h⟩
        (leafStarts ds) (lastStop? ds) := by
  rw [restore, ← map_defaultStart_items, ← defaultStop_getLast_items h]
  rfl

theorem build_eq_error_iff {size : α} : build ds size = .error cause ↔
    ds = [] ∧ cause = .noScaleItems ∨ ds ≠ [] ∧ (lastStop? ds = none ∧ cause = .missingEnd ∨
      ∃ stop, lastStop? ds = some stop ∧ ∃ i a b, IsLastDescent (leafStarts ds ++ [stop]) i a b ∧
        cause = .boundaryViolation i a b) := by
  by_cases hds : ds = []
  · have hitems : items ds = [] := items_eq_nil_iff.2 hds
    have hbuild : build ds size = .error .noScaleItems := dif_pos hitems
    rw [hbuild, Except.error.injEq]
    simp [hds, eq_comm]
  · have hitems : items ds ≠ [] := mt items_eq_nil_iff.1 hds
    rw [build_eq_bind hitems, Except.bind_eq_error_iff, restore_items hitems,
      setStarts_eq_error_iff]
    simp [hds]

/-- A scale has the times that the descriptors of its leaves say. -/
theorem exists_lastStop?_of_build {size : α} (h : build ds size = .ok s) :
    ∃ stop, lastStop? ds = some stop ∧ s.leaves.map ScaleLeaf.times =
      ((leafStarts ds ++ [stop]).zip (leafStarts ds ++ [stop]).tail).map
        fun p => (p.1, p.2, p.1.durationTo p.2) := by
  obtain ⟨hne, stop, hstop, -, hbuild⟩ := exists_of_build h
  obtain ⟨hbounded, hbuild⟩ := hbuild size
  cases h.symm.trans hbuild
  have hlength : (ScaleLeaf.pairs (leafStarts ds) stop).length = (items ds).length := by
    rw [ScaleLeaf.length_pairs, ← map_defaultStart_items, List.length_map]
  refine ⟨stop, (defaultStop_getLast_items hne).symm.trans hstop, ?_⟩
  rw [← ScaleLeaf.pairs_eq_zip_tail, ← ScaleLeaf.map_times_setAllBounds hlength,
    ← map_defaultStart_items]
  exact ScaleLeaf.map_place (fun _ _ _ _ => rfl) _ _ _

/-- A scale is built if there is an end and no leaf would end before it starts. -/
theorem exists_build {size : α} {stop : Moment} (hstop : lastStop? ds = some stop)
    (hchain : (leafStarts ds ++ [stop]).IsChain (· ≤ ·)) :
    ∃ s, build ds size = .ok s ∧ s.leaves.map ScaleLeaf.times =
      ((leafStarts ds ++ [stop]).zip (leafStarts ds ++ [stop]).tail).map
        fun p => (p.1, p.2, p.1.durationTo p.2) := by
  cases hbuild : build ds size with
  | ok s =>
    obtain ⟨_, hstop', htimes⟩ := exists_lastStop?_of_build hbuild
    cases hstop.symm.trans hstop'
    exact ⟨s, rfl, htimes⟩
  | error cause =>
    rcases build_eq_error_iff.1 hbuild with ⟨rfl, -⟩ | ⟨-, ⟨hnone, -⟩ | ⟨_, hstop', h⟩⟩
    · cases hstop
    · cases hstop.symm.trans hnone
    · cases hstop.symm.trans hstop'
      obtain ⟨i, a, b, hlast, -⟩ := h
      exact absurd hchain hlast.not_isChain

theorem map_times_build_congr (h : SameLeafTimes ds ds') (size size' : α) :
    (build ds size).map (·.leaves.map ScaleLeaf.times) =
      (build ds' size').map (·.leaves.map ScaleLeaf.times) := by
  have herror (cause : ScaleError) :
      build ds size = .error cause ↔ build ds' size' = .error cause := by
    rw [build_eq_error_iff, build_eq_error_iff, ← h.leafStarts_eq, ← h.lastStop?_eq, ne_eq, ne_eq,
      ← h.eq_nil_iff]
  cases hbuild : build ds size with
  | error cause => rw [(herror cause).1 hbuild]
  | ok s =>
    cases hbuild' : build ds' size' with
    | error cause => exact absurd ((herror cause).2 hbuild') (by simp [hbuild])
    | ok s' =>
      obtain ⟨stop, hstop, htimes⟩ := exists_lastStop?_of_build hbuild
      obtain ⟨stop', hstop', htimes'⟩ := exists_lastStop?_of_build hbuild'
      rw [← h.lastStop?_eq, hstop] at hstop'
      cases hstop'
      rw [← h.leafStarts_eq] at htimes'
      simp only [Except.map, htimes, htimes']

/-- Building a scale fails without descriptors, without an end or where a leaf would end before it
starts, with these causes in this order. Otherwise the leaves run from one described start to the
next. Descriptors with the same paths that differ in other times, or in anything else, make no
difference to that. -/
theorem build_times (ds : List (ScaleDescriptor α)) (size : α) :
    (∀ cause, build ds size = .error cause ↔ ds = [] ∧ cause = .noScaleItems ∨
      ds ≠ [] ∧ (lastStop? ds = none ∧ cause = .missingEnd ∨
        ∃ stop, lastStop? ds = some stop ∧ ∃ i a b,
          IsLastDescent (leafStarts ds ++ [stop]) i a b ∧ cause = .boundaryViolation i a b)) ∧
    (∀ stop, lastStop? ds = some stop → (leafStarts ds ++ [stop]).IsChain (· ≤ ·) →
      ∃ s, build ds size = .ok s ∧ s.leaves.map ScaleLeaf.times =
        ((leafStarts ds ++ [stop]).zip (leafStarts ds ++ [stop]).tail).map
          fun p => (p.1, p.2, p.1.durationTo p.2)) ∧
    ∀ ds' size', SameLeafTimes ds ds' → (build ds size).map (·.leaves.map ScaleLeaf.times) =
      (build ds' size').map (·.leaves.map ScaleLeaf.times) :=
  ⟨fun _ => build_eq_error_iff, fun _ => exists_build,
    fun _ size' h => map_times_build_congr h size size'⟩

/-- A group with times of its own and two leaves, the first one with an end before its start. -/
def grouped : List (ScaleDescriptor Float) :=
  [⟨"A", none, some "2030-01-01", some "1999-01-01", none⟩,
    ⟨"A-1", none, some "2024-01-01", some "2020-01-01", none⟩,
    ⟨"B", none, some "2024-04-01", some "2024-07-01", none⟩]

/-- The times of the group and the end of its leaf do not matter. An end before the start of the
last leaf does. -/
theorem build_times_grouped :
    let january : Moment := ⟨⟨2024, 1, 1, by decide⟩, .midnight⟩
    let april : Moment := ⟨⟨2024, 4, 1, by decide⟩, .midnight⟩
    let july : Moment := ⟨⟨2024, 7, 1, by decide⟩, .midnight⟩
    let plain : List (ScaleDescriptor Float) :=
      [⟨"A", none, none, none, none⟩, ⟨"A-1", none, some "2024/01/01", some "never", none⟩,
        ⟨"B", none, some "2024-04-01", some "2024-07-01T00:00:00Z", none⟩]
    let size : Float := Measure.ofInt 100
    (∃ s, build grouped size = .ok s ∧ s.leaves.map ScaleLeaf.times =
      [(january, april, january.durationTo april), (april, july, april.durationTo july)]) ∧
    (build grouped size).map (·.leaves.map ScaleLeaf.times) =
      (build plain size).map (·.leaves.map ScaleLeaf.times) ∧
    build [⟨"A", none, some "2024-07-01", some "2024-01-01", none⟩] size =
      .error (.boundaryViolation 0 july january) := by
  intro january april july plain size
  refine ⟨?_, ?_, ?_⟩
  · have hstarts : leafStarts grouped = [january, april] := by decide +kernel
    have hok := (build_times grouped size).2.1 july (by decide +kernel)
    rw [hstarts] at hok
    exact hok (by decide +kernel)
  · refine (build_times grouped size).2.2 plain size ⟨?_, ?_, ?_⟩ <;> decide +kernel
  · refine ((build_times _ size).1 _).2 (.inr ⟨List.cons_ne_nil _ _, .inr ?_⟩)
    have hlast : IsLastDescent [july, january] 0 july january :=
      .of_isChain (List.isChain_singleton _) rfl (by decide +kernel)
    exact ⟨january, by decide +kernel, 0, july, january, hlast, rfl⟩

end TimeScale

end Timeline
