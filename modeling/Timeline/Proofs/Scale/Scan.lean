import Mathlib.Data.List.Chain
import Timeline.Proofs.Calendar.Order
import Timeline.Scale.Leaf

/-! # The search for a leaf

The search starts anywhere and goes in one direction. Over leaves that follow one another without
gaps it finds what a search through all of them finds, since no moment lies in two of them. -/
namespace Timeline.ScaleLeaf

variable {α : Type} {leaves : List (ScaleLeaf α)} {m : Moment}

/-- No leaf ends before it starts, and each ends where the next one starts. -/
structure Contiguous (leaves : List (ScaleLeaf α)) : Prop where
  ordered : ∀ leaf ∈ leaves, leaf.start ≤ leaf.stop
  adjoining : leaves.IsChain fun a b => a.stop = b.start

lemma contains_iff {leaf : ScaleLeaf α} : leaf.contains m ↔ leaf.start ≤ m ∧ m < leaf.stop := by
  simp [contains]

lemma Contiguous.tail {leaf : ScaleLeaf α} (h : Contiguous (leaf :: leaves)) : Contiguous leaves :=
  ⟨fun a ha => h.ordered a (by simp [ha]), h.adjoining.tail⟩

lemma Contiguous.pairwise (h : Contiguous leaves) :
    leaves.Pairwise fun a b => a.stop ≤ b.start := by
  induction leaves with
  | nil => exact .nil
  | cons leaf leaves ih =>
    refine List.pairwise_cons.2 ⟨?_, ih h.tail⟩
    cases leaves with
    | nil => simp
    | cons next leaves =>
      have hnext : leaf.stop = next.start := (List.isChain_cons_cons.1 h.adjoining).1
      have hle : next.start ≤ next.stop := h.ordered next (by simp)
      intro b hb
      rcases List.mem_cons.1 hb with rfl | hb
      · exact hnext.le
      · exact hnext.le.trans (hle.trans ((List.pairwise_cons.1 (ih h.tail)).1 b hb))

lemma Contiguous.stop_le_start (h : Contiguous leaves) {i j : Nat} {a b : ScaleLeaf α}
    (hij : i < j) (ha : leaves[i]? = some a) (hb : leaves[j]? = some b) : a.stop ≤ b.start := by
  obtain ⟨hi, rfl⟩ := List.getElem?_eq_some_iff.1 ha
  obtain ⟨hj, rfl⟩ := List.getElem?_eq_some_iff.1 hb
  exact List.pairwise_iff_getElem.1 h.pairwise i j hi hj hij

/-- The leaf with an index contains a moment. -/
def HasAt (leaves : List (ScaleLeaf α)) (m : Moment) (i : Nat) : Prop :=
  ∃ leaf, leaves[i]? = some leaf ∧ leaf.start ≤ m ∧ m < leaf.stop

lemma HasAt.lt {i : Nat} (h : HasAt leaves m i) : i < leaves.length := by
  obtain ⟨_, hleaf, -⟩ := h
  exact (List.getElem?_eq_some_iff.1 hleaf).1

lemma HasAt.unique (h : Contiguous leaves) {i j : Nat} (hi : HasAt leaves m i)
    (hj : HasAt leaves m j) : i = j := by
  obtain ⟨a, ha, ha₁, ha₂⟩ := hi
  obtain ⟨b, hb, hb₁, hb₂⟩ := hj
  rcases lt_trichotomy i j with hij | hij | hij
  · exact absurd (ha₂.trans_le (h.stop_le_start hij ha hb)) (not_lt.2 hb₁)
  · exact hij
  · exact absurd (hb₂.trans_le (h.stop_le_start hij hb ha)) (not_lt.2 ha₁)

lemma hasAt_of_scanDown? {n i : Nat} (h : scanDown? leaves m n = some i) : HasAt leaves m i := by
  fun_induction scanDown? leaves m n with
  | case1 => cases h
  | case2 n leaf hleaf hc =>
    cases h
    exact ⟨leaf, hleaf, contains_iff.1 hc⟩
  | case3 n leaf hleaf hc ih => exact ih h
  | case4 n hleaf ih => exact ih h

lemma scanDown?_eq_none {n : Nat} (h : scanDown? leaves m n = none) :
    ∀ i < n, ¬ HasAt leaves m i := by
  fun_induction scanDown? leaves m n with
  | case1 => simp
  | case2 n leaf hleaf hc => cases h
  | case3 n leaf hleaf hc ih =>
    intro i hi
    rcases Nat.lt_succ_iff_lt_or_eq.1 hi with hi | rfl
    · exact ih h i hi
    · rintro ⟨b, hb, hm⟩
      rw [hleaf] at hb
      cases hb
      exact hc (contains_iff.2 hm)
  | case4 n hleaf ih =>
    intro i hi
    rcases Nat.lt_succ_iff_lt_or_eq.1 hi with hi | rfl
    · exact ih h i hi
    · rintro ⟨b, hb, -⟩
      rw [hleaf] at hb
      cases hb

lemma hasAt_of_findIdx? {i : Nat} (h : leaves.findIdx? (·.contains m) = some i) :
    HasAt leaves m i := by
  obtain ⟨hi, hc, -⟩ := List.findIdx?_eq_some_iff_getElem.1 h
  exact ⟨leaves[i], List.getElem?_eq_getElem hi, contains_iff.1 hc⟩

lemma findIdx?_eq_none (h : leaves.findIdx? (·.contains m) = none) (i : Nat) :
    ¬ HasAt leaves m i := by
  rintro ⟨leaf, hleaf, hm⟩
  have hc := List.findIdx?_eq_none_iff.1 h leaf (List.mem_of_getElem? hleaf)
  rw [contains_iff.2 hm] at hc
  cases hc

lemma hasAt_of_scanUp? {n i : Nat} (h : scanUp? leaves m n = some i) : HasAt leaves m i := by
  obtain ⟨k, hk, rfl⟩ := Option.map_eq_some_iff.1 h
  obtain ⟨leaf, hleaf, hm⟩ := hasAt_of_findIdx? hk
  exact ⟨leaf, by simpa using hleaf, hm⟩

lemma scanUp?_eq_none {n : Nat} (h : scanUp? leaves m n = none) :
    ∀ i ≥ n, ¬ HasAt leaves m i := by
  rintro i hi ⟨leaf, hleaf, hm⟩
  refine findIdx?_eq_none (Option.map_eq_none_iff.1 h) (i - n) ⟨leaf, ?_, hm⟩
  rw [List.getElem?_drop, Nat.add_sub_cancel' hi, hleaf]

theorem hasAt_of_indexFrom? {hint i : Nat} (h : indexFrom? leaves hint m = some i) :
    HasAt leaves m i := by
  unfold indexFrom? at h
  dsimp only at h
  split at h
  · cases h
  · next leaf hleaf =>
    split at h
    · next hc =>
      cases h
      exact ⟨leaf, hleaf, contains_iff.1 hc⟩
    · split at h
      · exact hasAt_of_scanDown? h
      · exact hasAt_of_scanUp? h

/-- The directional search finds nothing only if no leaf contains the moment. -/
theorem indexFrom?_eq_none (hleaves : Contiguous leaves) {hint : Nat}
    (h : indexFrom? leaves hint m = none) (i : Nat) : ¬ HasAt leaves m i := by
  intro hi
  have hlt : min hint (leaves.length - 1) < leaves.length := by
    have := hi.lt
    omega
  unfold indexFrom? at h
  dsimp only at h
  rw [List.getElem?_eq_getElem hlt] at h
  generalize hleaf : leaves[min hint (leaves.length - 1)] = leaf at h
  replace hleaf := List.getElem?_eq_some_iff.2 ⟨hlt, hleaf⟩
  generalize min hint (leaves.length - 1) = k at h hleaf
  obtain ⟨b, hb, hb₁, hb₂⟩ := id hi
  dsimp only at h
  split_ifs at h with hc hbefore
  -- the leaf would be on the side that was not searched, where the moment cannot be
  · have hik : k ≤ i := not_lt.1 fun hik => scanDown?_eq_none h i hik hi
    rcases hik.eq_or_lt with rfl | hik
    · cases hleaf.symm.trans hb
      exact absurd hbefore (not_lt.2 hb₁)
    · have hle := hleaves.ordered leaf (List.mem_of_getElem? hleaf)
      have := hle.trans ((hleaves.stop_le_start hik hleaf hb).trans hb₁)
      exact absurd hbefore (not_lt.2 this)
  · have hik : i ≤ k := not_lt.1 fun hik => scanUp?_eq_none h i hik hi
    have hstop : m < leaf.stop := by
      rcases hik.eq_or_lt with rfl | hik
      · cases hleaf.symm.trans hb
        exact hb₂
      · have hle := hleaves.ordered leaf (List.mem_of_getElem? hleaf)
        exact hb₂.trans_le ((hleaves.stop_le_start hik hb hleaf).trans hle)
    exact hc (contains_iff.2 ⟨not_lt.1 hbefore, hstop⟩)

/-- From wherever it starts, the directional search agrees with the linear one. -/
theorem indexFrom?_eq_findIdx? (h : Contiguous leaves) (hint : Nat) (m : Moment) :
    indexFrom? leaves hint m = leaves.findIdx? (·.contains m) := by
  cases hf : indexFrom? leaves hint m with
  | none =>
    cases hl : leaves.findIdx? (·.contains m) with
    | none => rfl
    | some i => exact absurd (hasAt_of_findIdx? hl) (indexFrom?_eq_none h hf i)
  | some i =>
    have hi := hasAt_of_indexFrom? hf
    cases hl : leaves.findIdx? (·.contains m) with
    | none => exact absurd hi (findIdx?_eq_none hl i)
    | some j => rw [hi.unique h (hasAt_of_findIdx? hl)]

end Timeline.ScaleLeaf
