import Mathlib.Order.Bounds.Basic
import Timeline.Proofs.Scale.Boundaries

/-! # Where boundaries decrease

New boundaries are refused exactly if a leaf would end before it starts. The last such leaf is
reported, with its start and its end. -/
namespace Timeline

/-- The places in a list of moments right before an earlier moment. -/
def descents (ms : List Moment) : Set Nat :=
  {i | ∃ a b, ms[i]? = some a ∧ ms[i + 1]? = some b ∧ b < a}

/-- The last place where moments decrease, with the two moments there. -/
structure IsLastDescent (ms : List Moment) (i : Nat) (a b : Moment) : Prop where
  isGreatest : IsGreatest (descents ms) i
  getElem?_eq : ms[i]? = some a
  getElem?_succ_eq : ms[i + 1]? = some b

variable {m a b : Moment} {ms : List Moment} {i : Nat}

lemma succ_mem_descents_iff : i + 1 ∈ descents (m :: ms) ↔ i ∈ descents ms := by
  simp only [descents, Set.mem_ofPred_eq, List.getElem?_cons_succ]

lemma zero_mem_descents_iff : 0 ∈ descents (m :: ms) ↔ ∃ next, ms.head? = some next ∧ next < m := by
  simp [descents, List.head?_eq_getElem?]

lemma descents_eq_empty_iff : descents ms = ∅ ↔ ms.IsChain (· ≤ ·) := by
  induction ms with
  | nil => simp [descents]
  | cons m ms ih =>
    rw [List.isChain_cons, ← ih, Set.eq_empty_iff_forall_notMem, Set.eq_empty_iff_forall_notMem]
    constructor
    · intro h
      refine ⟨fun next hnext => not_lt.1 fun hlt => ?_, fun i hi => ?_⟩
      · exact h 0 (zero_mem_descents_iff.2 ⟨next, hnext, hlt⟩)
      · exact h (i + 1) (succ_mem_descents_iff.2 hi)
    · rintro ⟨hhead, htail⟩ i hi
      cases i with
      | zero =>
        obtain ⟨next, hnext, hlt⟩ := zero_mem_descents_iff.1 hi
        exact not_lt.2 (hhead next hnext) hlt
      | succ i => exact htail i (succ_mem_descents_iff.1 hi)

namespace IsLastDescent

lemma lt (h : IsLastDescent ms i a b) : b < a := by
  obtain ⟨a', b', ha, hb, hlt⟩ := h.isGreatest.1
  rw [h.getElem?_eq] at ha
  rw [h.getElem?_succ_eq] at hb
  cases ha
  cases hb
  exact hlt

lemma not_isChain (h : IsLastDescent ms i a b) : ¬ ms.IsChain (· ≤ ·) := by
  intro hchain
  have hmem := h.isGreatest.1
  rw [descents_eq_empty_iff.2 hchain] at hmem
  exact hmem

lemma unique {j : Nat} {a' b' : Moment} (h : IsLastDescent ms i a b)
    (h' : IsLastDescent ms j a' b') : i = j ∧ a = a' ∧ b = b' := by
  obtain rfl : i = j := h.isGreatest.unique h'.isGreatest
  exact ⟨rfl, Option.some.inj (h.getElem?_eq.symm.trans h'.getElem?_eq),
    Option.some.inj (h.getElem?_succ_eq.symm.trans h'.getElem?_succ_eq)⟩

lemma exists_iff {P : Nat → Moment → Moment → Prop} (h : IsLastDescent ms i a b) :
    (∃ j a' b', IsLastDescent ms j a' b' ∧ P j a' b') ↔ P i a b := by
  constructor
  · rintro ⟨j, a', b', h', hP⟩
    obtain ⟨rfl, rfl, rfl⟩ := h.unique h'
    exact hP
  · exact fun hP => ⟨i, a, b, h, hP⟩

/-- What decreases last also does so behind another moment. -/
lemma cons (h : IsLastDescent ms i a b) (m : Moment) : IsLastDescent (m :: ms) (i + 1) a b := by
  refine ⟨⟨succ_mem_descents_iff.2 h.isGreatest.1, fun j hj => ?_⟩, h.getElem?_eq,
    h.getElem?_succ_eq⟩
  cases j with
  | zero => exact Nat.zero_le _
  | succ j => exact Nat.succ_le_succ (h.isGreatest.2 (succ_mem_descents_iff.1 hj))

/-- The first moment is the place of the last decrease if the others do not decrease. -/
lemma of_isChain (hms : ms.IsChain (· ≤ ·)) (hhead : ms.head? = some b) (hlt : b < m) :
    IsLastDescent (m :: ms) 0 m b := by
  refine ⟨⟨zero_mem_descents_iff.2 ⟨b, hhead, hlt⟩, fun j hj => ?_⟩, rfl,
    List.head?_eq_getElem?.symm.trans hhead⟩
  cases j with
  | zero => exact Nat.le_refl 0
  | succ j =>
    rw [succ_mem_descents_iff, descents_eq_empty_iff.2 hms] at hj
    exact hj.elim

end IsLastDescent

namespace ScaleLeaf

/-- Bounds are refused for the last leaf that would end before it starts. -/
theorem bounds_eq_error_iff {index : Nat} {starts : List Moment} {stop : Moment}
    {cause : ScaleError} : bounds index starts stop = .error cause ↔
      ∃ i a b, IsLastDescent (starts ++ [stop]) i a b ∧
        cause = .boundaryViolation (index + i) a b := by
  induction starts generalizing index cause with
  | nil =>
    refine ⟨fun h => ?_, ?_⟩
    · cases h
    · rintro ⟨i, a, b, h, -⟩
      exact absurd (List.IsChain.singleton _) h.not_isChain
  | cons start starts ih =>
    rw [bounds]
    cases hlater : bounds (index + 1) starts stop with
    | error later =>
      obtain ⟨i, a, b, hlast, rfl⟩ := ih.1 hlater
      have hcons : IsLastDescent (start :: starts ++ [stop]) (i + 1) a b := hlast.cons start
      rw [hcons.exists_iff, Except.error_bind, Except.error.injEq, eq_comm, Nat.add_assoc,
        Nat.add_comm 1]
    | ok later =>
      have hchain := (forall_pairs_iff starts stop).1 (bounds_eq_ok_iff.1 hlater).2
      have hhead : (starts ++ [stop]).head? = some (starts.headD stop) := by
        cases starts <;> rfl
      rw [Except.ok_bind]
      dsimp only
      split_ifs with hlt
      · have hfirst : IsLastDescent (start :: starts ++ [stop]) 0 start (starts.headD stop) :=
          .of_isChain hchain hhead hlt
        rw [hfirst.exists_iff, Except.error.injEq, eq_comm, Nat.add_zero]
      · have hall : (start :: starts ++ [stop]).IsChain (· ≤ ·) := by
          refine List.isChain_cons.2 ⟨fun next hnext => ?_, hchain⟩
          rw [← Option.some.inj (hhead.symm.trans hnext)]
          exact not_lt.1 hlt
        refine ⟨fun h => ?_, ?_⟩
        · cases h
        · rintro ⟨i, a, b, h, -⟩
          exact absurd hall h.not_isChain

end ScaleLeaf

/-- New starts are refused if there is no end, or if a leaf would end before it starts. -/
theorem TimeScale.setStarts_eq_error_iff {α : Type} {s : TimeScale α} {starts : List Moment}
    {stop? : Option Moment} {cause : ScaleError} :
    s.setStarts starts stop? = .error cause ↔
      stop? = none ∧ cause = .missingEnd ∨
        ∃ stop, stop? = some stop ∧ ∃ i a b, IsLastDescent (starts ++ [stop]) i a b ∧
          cause = .boundaryViolation i a b := by
  cases stop? with
  | none => simp [setStarts, eq_comm]
  | some stop =>
    have hbounds : ScaleLeaf.bounds 0 starts stop = .error cause ↔ _ :=
      ScaleLeaf.bounds_eq_error_iff
    simp only [Nat.zero_add] at hbounds
    simp only [reduceCtorEq, false_and, false_or, Option.some.injEq, exists_eq_left', ← hbounds]
    unfold setStarts
    dsimp only
    cases ScaleLeaf.bounds 0 starts stop with
    | error later => rw [Except.error_bind, Except.error.injEq, Except.error.injEq]
    | ok bs => exact iff_of_false (fun h => by cases h) (fun h => by cases h)

end Timeline
