import Timeline.Proofs.Calendar.Months
import Timeline.Proofs.Scale.Contiguity

/-! # Boundaries

The boundaries of a scale are the starts of its leaves and its end. New boundaries do not depend on
the ones they replace, so of several edits of the boundaries only the last one is left. A move
shifts every boundary by the same months. -/
namespace List

variable {α β γ : Type} {R : α → β → Prop}

lemma forall₂_concat_iff {xs : List α} {ys : List β} {x : α} {y : β} :
    Forall₂ R (xs ++ [x]) (ys ++ [y]) ↔ Forall₂ R xs ys ∧ R x y := by
  rw [← forall₂_reverse_iff, reverse_concat', reverse_concat', forall₂_cons, forall₂_reverse_iff,
    and_comm]

/-- A relation to the images of some entries, told by the entries themselves. -/
lemma Forall₂.forall₂_iff {P : α → γ → Prop} {Q : β → γ → Prop} {xs : List α} {ys : List β}
    {zs : List γ} (h : Forall₂ R xs ys) (hPQ : ∀ x ∈ xs, ∀ y, R x y → ∀ z, Q y z ↔ P x z) :
    Forall₂ Q ys zs ↔ Forall₂ P xs zs := by
  induction h generalizing zs with
  | nil => simp
  | @cons x y xs ys hxy _ ih =>
    rw [forall_mem_cons] at hPQ
    cases zs with
    | nil => simp
    | cons z zs => rw [forall₂_cons, forall₂_cons, hPQ.1 y hxy z, ih hPQ.2]

end List

namespace Timeline

namespace ScaleLeaf

variable {α : Type}

lemma map_fst_pairs (starts : List Moment) (stop : Moment) :
    (pairs starts stop).map Prod.fst = starts :=
  List.map_fst_zip (by cases starts <;> simp)

lemma getLast?_map_snd_pairs {starts : List Moment} (h : starts ≠ []) (stop : Moment) :
    ((pairs starts stop).map Prod.snd).getLast? = some stop := by
  obtain ⟨start, starts, rfl⟩ := List.exists_cons_of_ne_nil h
  rw [pairs, List.map_snd_zip (by simp)]
  exact List.getLast?_concat

/-- The starts and the end do not decrease exactly if no leaf ends before it starts. -/
lemma forall_pairs_iff (starts : List Moment) (stop : Moment) :
    (∀ p ∈ pairs starts stop, p.1 ≤ p.2) ↔ (starts ++ [stop]).IsChain (· ≤ ·) := by
  induction starts with
  | nil => simp [pairs]
  | cons start starts ih =>
    rw [pairs_cons, List.forall_mem_cons, ih]
    cases starts with
    | nil => simp
    | cons next starts => exact List.isChain_cons_cons.symm

lemma pairs_eq_zip_tail (starts : List Moment) (stop : Moment) :
    pairs starts stop = (starts ++ [stop]).zip (starts ++ [stop]).tail := by
  cases starts with
  | nil => rfl
  | cons start starts =>
    have hlength : (start :: starts).length = (starts ++ [stop]).length := by simp
    have hzip : (start :: starts ++ [stop]).zip (starts ++ [stop] ++ []) = _ :=
      List.zip_append hlength
    simpa [pairs] using hzip.symm

/-- Leaves without gaps between them run from their starts to the next ones. -/
lemma Contiguous.map_extent {leaves : List (ScaleLeaf α)} (h : Contiguous leaves)
    (hne : leaves ≠ []) :
    leaves.map extent = pairs (leaves.map (·.start)) (leaves.getLast hne).stop := by
  induction leaves with
  | nil => exact absurd rfl hne
  | cons leaf leaves ih =>
    cases leaves with
    | nil => rfl
    | cons next leaves =>
      have hnext : leaf.stop = next.start := (List.isChain_cons_cons.1 h.adjoining).1
      rw [List.map_cons, ih h.tail (List.cons_ne_nil _ _),
        List.getLast_cons (List.cons_ne_nil _ _), extent, hnext]
      exact (pairs_cons leaf.start (next.start :: leaves.map (·.start)) _).symm

/-- Only the last bounds that leaves get are left. -/
lemma setAllBounds_setAllBounds {leaves : List (ScaleLeaf α)} {bs bs' : List (Moment × Moment)}
    (h : bs.length ≤ bs'.length) :
    setAllBounds (setAllBounds leaves bs) bs' = setAllBounds leaves bs' := by
  induction leaves generalizing bs bs' with
  | nil => rfl
  | cons leaf leaves ih =>
    cases bs with
    | nil => rfl
    | cons b bs =>
      cases bs' with
      | nil => simp at h
      | cons b' bs' => simp only [setAllBounds, setBounds, ih (Nat.le_of_succ_le_succ h)]

end ScaleLeaf

namespace TimeScale

variable {α : Type} {s s' t : TimeScale α}

/-- The starts of the leaves in order, and the end of the scale. -/
def boundaries (s : TimeScale α) : List Moment := s.leaves.map (·.start) ++ [s.stop]

lemma boundaries_eq_cons (s : TimeScale α) : s.boundaries = s.start :: s.boundaries.tail := by
  obtain ⟨leaf, leaves, h⟩ := List.exists_cons_of_ne_nil s.leaves_ne_nil
  simp [boundaries, start, firstLeaf, h]

lemma map_extent_eq (h : ScaleLeaf.Contiguous s.leaves) :
    s.leaves.map ScaleLeaf.extent = s.boundaries.zip s.boundaries.tail := by
  rw [boundaries, ← ScaleLeaf.pairs_eq_zip_tail]
  exact h.map_extent s.leaves_ne_nil

lemma isChain_boundaries (h : ScaleLeaf.Contiguous s.leaves) : s.boundaries.IsChain (· ≤ ·) := by
  rw [boundaries, ← ScaleLeaf.forall_pairs_iff, ScaleLeaf.pairs_eq_zip_tail, ← boundaries,
    ← map_extent_eq h]
  exact (ScaleLeaf.contiguous_iff.1 h).1

/-- The scale lies between its first boundary and its last one. -/
lemma mem_boundaries (h : s.boundaries.IsChain (· ≤ ·)) {m : Moment} (hm : m ∈ s.boundaries) :
    s.start ≤ m ∧ m ≤ s.stop := by
  have hpairwise := List.isChain_iff_pairwise.1 h
  constructor
  · rw [s.boundaries_eq_cons] at hpairwise hm
    rcases List.mem_cons.1 hm with rfl | hm
    · exact le_refl _
    · exact (List.pairwise_cons.1 hpairwise).1 m hm
  · rcases List.mem_append.1 hm with hm | hm
    · exact (List.pairwise_append.1 hpairwise).2.2 m hm _ (List.mem_singleton_self _)
    · rw [List.mem_singleton.1 hm]

/-- The second scale is the first one with new boundaries. -/
def Rebound (s s' : TimeScale α) : Prop :=
  ∃ starts stop, starts.length = s.leaves.length ∧ s.setStarts starts (some stop) = .ok s'

lemma times_of_setStarts {starts : List Moment} {stop : Moment}
    (hlength : starts.length = s.leaves.length) (hs : s.setStarts starts (some stop) = .ok s') :
    s'.leaves.map (·.start) = starts ∧ s'.stop = stop := by
  obtain ⟨_, ⟨⟩, -, hne, rfl⟩ := setStarts_eq_ok_iff.1 hs
  have hpairs : (ScaleLeaf.pairs starts stop).length = s.leaves.length := by
    rw [ScaleLeaf.length_pairs, hlength]
  have hextents := ScaleLeaf.map_extent_setAllBounds hpairs
  generalize ScaleLeaf.setAllBounds s.leaves (ScaleLeaf.pairs starts stop) = leaves at hne hextents
  constructor
  · calc leaves.map (·.start) = (leaves.map ScaleLeaf.extent).map Prod.fst := by
          rw [List.map_map]
          rfl
      _ = starts := by rw [hextents, ScaleLeaf.map_fst_pairs]
  · have hstarts : starts ≠ [] := by
      rw [← List.length_pos_iff, hlength, List.length_pos_iff]
      exact s.leaves_ne_nil
    have hlast : (leaves.map (·.stop)).getLast? = some stop := by
      rw [← ScaleLeaf.getLast?_map_snd_pairs hstarts, ← hextents, List.map_map]
      rfl
    rw [List.getLast?_map, List.getLast?_eq_some_getLast hne] at hlast
    exact Option.some.inj hlast

lemma boundaries_of_setStarts {starts : List Moment} {stop : Moment}
    (hlength : starts.length = s.leaves.length) (hs : s.setStarts starts (some stop) = .ok s') :
    s'.boundaries = starts ++ [stop] := by
  obtain ⟨hstarts, hstop⟩ := times_of_setStarts hlength hs
  rw [boundaries, hstarts, hstop]

namespace Rebound

lemma length_eq (h : s.Rebound s') : s'.leaves.length = s.leaves.length := by
  obtain ⟨starts, stop, hlength, hs⟩ := h
  rw [← hlength, ← (times_of_setStarts hlength hs).1, List.length_map]

lemma isChain (h : s.Rebound s') : s'.boundaries.IsChain (· ≤ ·) := by
  obtain ⟨starts, stop, hlength, hs⟩ := h
  obtain ⟨_, ⟨⟩, hle, -⟩ := setStarts_eq_ok_iff.1 hs
  rw [boundaries_of_setStarts hlength hs]
  exact (ScaleLeaf.forall_pairs_iff starts stop).1 hle

/-- New boundaries do not depend on the ones that they replace. -/
lemma setStarts_eq_ok_iff (h : s.Rebound s') {starts : List Moment}
    (hlength : starts.length = s.leaves.length) {stop? : Option Moment} :
    s'.setStarts starts stop? = .ok t ↔ s.setStarts starts stop? = .ok t := by
  obtain ⟨starts', stop', hlength', hs⟩ := h
  obtain ⟨_, ⟨⟩, -, -, rfl⟩ := TimeScale.setStarts_eq_ok_iff.1 hs
  have hleaves (stop : Moment) : ScaleLeaf.setAllBounds
      (ScaleLeaf.setAllBounds s.leaves (ScaleLeaf.pairs starts' stop'))
      (ScaleLeaf.pairs starts stop) =
        ScaleLeaf.setAllBounds s.leaves (ScaleLeaf.pairs starts stop) := by
    refine ScaleLeaf.setAllBounds_setAllBounds ?_
    rw [ScaleLeaf.length_pairs, ScaleLeaf.length_pairs, hlength, hlength']
  simp only [TimeScale.setStarts_eq_ok_iff, hleaves]

theorem trans_iff (h : s.Rebound s') : s'.Rebound t ↔ s.Rebound t := by
  unfold Rebound
  rw [h.length_eq]
  refine exists_congr fun starts => exists_congr fun stop => and_congr_right fun hlength => ?_
  exact h.setStarts_eq_ok_iff hlength

lemma refl_right (h : s.Rebound s') : s'.Rebound s' := h.trans_iff.2 h

/-- A scale with new boundaries is given by them. -/
theorem eq_of_boundaries_eq (h : s.Rebound s') (ht : s.Rebound t)
    (hboundaries : s'.boundaries = t.boundaries) : s' = t := by
  obtain ⟨starts, stop, hlength, hs⟩ := h
  obtain ⟨starts', stop', hlength', ht⟩ := ht
  rw [boundaries_of_setStarts hlength hs, boundaries_of_setStarts hlength' ht] at hboundaries
  obtain ⟨rfl, ⟨⟩⟩ := List.append_inj hboundaries (hlength.trans hlength'.symm)
  exact Except.ok.inj (hs.symm.trans ht)

end Rebound

/-- Any boundaries that do not decrease can be given to a scale with as many. -/
lemma exists_setStarts {starts : List Moment} {stop : Moment}
    (hlength : starts.length = s.leaves.length) (hms : (starts ++ [stop]).IsChain (· ≤ ·)) :
    ∃ s', s.setStarts starts (some stop) = .ok s' ∧ s'.boundaries = starts ++ [stop] := by
  have hle := (ScaleLeaf.forall_pairs_iff starts stop).2 hms
  have hs := TimeScale.setStarts_eq_ok_iff.2
    ⟨stop, rfl, hle, ScaleLeaf.setAllBounds_ne_nil s.leaves_ne_nil _, rfl⟩
  exact ⟨_, hs, boundaries_of_setStarts hlength hs⟩

theorem exists_rebound {ms : List Moment} (hlength : ms.length = s.boundaries.length)
    (hms : ms.IsChain (· ≤ ·)) : ∃ s', s.Rebound s' ∧ s'.boundaries = ms := by
  obtain rfl | ⟨starts, stop, rfl⟩ := List.eq_nil_or_concat' ms
  · simp [boundaries] at hlength
  · rw [boundaries, List.length_append, List.length_append, List.length_map] at hlength
    have hstarts : starts.length = s.leaves.length := Nat.add_right_cancel hlength
    obtain ⟨s', hs, hboundaries⟩ := exists_setStarts hstarts hms
    exact ⟨s', ⟨starts, stop, hstarts, hs⟩, hboundaries⟩

end TimeScale

lemma TimeValue.resolve_eq_ok_iff {v : TimeValue} {index : Nat} {m : Moment} :
    v.resolve index = .ok m ↔ v.moment? = some m := by
  unfold resolve
  cases v.moment? <;> simp

lemma TimeValue.resolve_eq_error_iff {v : TimeValue} {index : Nat} {cause : ScaleError} :
    v.resolve index = .error cause ↔ v.moment? = none ∧ cause = .invalidTime index v.toText := by
  unfold resolve
  cases v.moment? <;> simp [eq_comm]

/-- The shift takes the moments to others, one by one. -/
def MonthShift.Takes (shift : MonthShift) : List Moment → List Moment → Prop :=
  List.Forall₂ fun m m' => shift.moment? m = some m'

namespace MonthShift.Takes

variable {shift : MonthShift} {ms ms' : List Moment}

lemma forall_mem {P : Moment → Prop} (h : shift.Takes ms ms')
    (hP : ∀ m ∈ ms, ∀ m', shift.moment? m = some m' → P m') : ∀ m' ∈ ms', P m' := by
  induction h with
  | nil => exact List.forall_mem_nil P
  | cons hm _ ih =>
    rw [List.forall_mem_cons] at hP ⊢
    exact ⟨hP.1 _ hm, ih hP.2⟩

/-- Moments in order are still in order when they are shifted. -/
lemma isChain (h : shift.Takes ms ms') (hms : ms.IsChain (· ≤ ·)) : ms'.IsChain (· ≤ ·) := by
  induction h with
  | nil => exact .nil
  | @cons m m' ms ms' hm htail ih =>
    cases htail with
    | nil => exact .singleton _
    | cons hnext _ =>
      obtain ⟨hle, hms⟩ := List.isChain_cons_cons.1 hms
      exact List.isChain_cons_cons.2 ⟨moment?_mono hle hm hnext, ih hms⟩

end MonthShift.Takes

namespace TimeScale

variable {α : Type} {s s' : TimeScale α} {v : TimeValue}

lemma shifted_eq_ok_iff {shift : MonthShift} {m m' : Moment} :
    shifted shift m = .ok m' ↔ shift.moment? m = some m' := by
  unfold shifted
  cases shift.moment? m <;> simp

/-- A move shifts every boundary so that the first one comes into the month of the target. -/
theorem moveTo_eq_ok_iff : s.moveTo v = .ok s' ↔ ∃ target, v.moment? = some target ∧
    (MonthShift.between s.start target).Takes s.boundaries s'.boundaries ∧ s.Rebound s' := by
  unfold moveTo
  dsimp only
  rw [Except.bind_eq_ok_iff]
  refine exists_congr fun target => and_congr TimeValue.resolve_eq_ok_iff ?_
  generalize MonthShift.between s.start target = shift
  have hmapM {starts : List Moment} : (s.leaves.map (·.start)).mapM (shifted shift) = .ok starts ↔
      shift.Takes (s.leaves.map (·.start)) starts := by
    rw [Except.mapM_eq_ok_iff]
    simp only [shifted_eq_ok_iff]
    rfl
  constructor
  · intro h
    obtain ⟨starts, hstarts, h⟩ := Except.bind_eq_ok_iff.1 h
    obtain ⟨stop, hstop, hs⟩ := Except.bind_eq_ok_iff.1 h
    have htakes := hmapM.1 hstarts
    have hlength : starts.length = s.leaves.length := by
      rw [← htakes.length_eq, List.length_map]
    refine ⟨?_, starts, stop, hlength, hs⟩
    rw [boundaries_of_setStarts hlength hs]
    exact List.forall₂_concat_iff.2 ⟨htakes, shifted_eq_ok_iff.1 hstop⟩
  · rintro ⟨htakes, starts, stop, hlength, hs⟩
    rw [boundaries_of_setStarts hlength hs] at htakes
    obtain ⟨hstarts, hstop⟩ := List.forall₂_concat_iff.1 htakes
    rw [hmapM.2 hstarts, Except.ok_bind, shifted_eq_ok_iff.2 hstop]
    exact hs

/-- Boundaries in order stay in order when they are shifted, so nothing else keeps a scale from
moving. -/
theorem exists_moveTo {target : Moment} {ms : List Moment} (hs : s.boundaries.IsChain (· ≤ ·))
    (hv : v.moment? = some target)
    (hms : (MonthShift.between s.start target).Takes s.boundaries ms) :
    ∃ s', s.moveTo v = .ok s' ∧ s'.boundaries = ms := by
  obtain ⟨s', hrebound, rfl⟩ := exists_rebound hms.length_eq.symm (hms.isChain hs)
  exact ⟨s', moveTo_eq_ok_iff.2 ⟨target, hv, hms, hrebound⟩, rfl⟩

end TimeScale

end Timeline
