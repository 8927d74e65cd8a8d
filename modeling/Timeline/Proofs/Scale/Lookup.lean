import Timeline.Proofs.Scale.Contiguity

/-! # Answers

The answers to questions without a memory: every question looks through all leaves. A scale gives
these answers wherever its searches start, so their order does not matter. -/
namespace Timeline

namespace ScaleLeaf

variable {α : Type} {m : Moment}

lemma Contiguous.head_le_getLast {leaves : List (ScaleLeaf α)} (h : Contiguous leaves)
    (hne : leaves ≠ []) : (leaves.head hne).start ≤ (leaves.getLast hne).stop := by
  induction leaves with
  | nil => exact absurd rfl hne
  | cons leaf leaves ih =>
    have hle : leaf.start ≤ leaf.stop := h.ordered leaf (by simp)
    cases leaves with
    | nil => exact hle
    | cons next leaves =>
      have hnext : leaf.stop = next.start := (List.isChain_cons_cons.1 h.adjoining).1
      rw [List.getLast_cons (List.cons_ne_nil next leaves)]
      exact hle.trans (hnext.le.trans (ih h.tail (by simp)))

/-- Contiguous leaves contain the moments from the start of the first one to the end of the last. -/
lemma Contiguous.exists_hasAt_iff {leaves : List (ScaleLeaf α)} (h : Contiguous leaves)
    (hne : leaves ≠ []) :
    (∃ i, HasAt leaves m i) ↔ (leaves.head hne).start ≤ m ∧ m < (leaves.getLast hne).stop := by
  induction leaves with
  | nil => exact absurd rfl hne
  | cons leaf leaves ih =>
    have hzero : HasAt (leaf :: leaves) m 0 ↔ leaf.start ≤ m ∧ m < leaf.stop := by simp [HasAt]
    have hsucc (i : Nat) : HasAt (leaf :: leaves) m (i + 1) ↔ HasAt leaves m i := by simp [HasAt]
    cases leaves with
    | nil =>
      refine ⟨fun ⟨i, hi⟩ => ?_, fun hm => ⟨0, hzero.2 hm⟩⟩
      have hi0 : i = 0 := by simpa using hi.lt
      exact hzero.1 (hi0 ▸ hi)
    | cons next leaves =>
      have hnext : leaf.stop = next.start := (List.isChain_cons_cons.1 h.adjoining).1
      have hle : leaf.start ≤ leaf.stop := h.ordered leaf (by simp)
      have hlast := h.tail.head_le_getLast (List.cons_ne_nil next leaves)
      have ih := ih h.tail (by simp)
      rw [List.getLast_cons (List.cons_ne_nil next leaves)]
      constructor
      · rintro ⟨_ | i, hi⟩
        · obtain ⟨hstart, hstop⟩ := hzero.1 hi
          exact ⟨hstart, hstop.trans_le (hnext.le.trans hlast)⟩
        · obtain ⟨hstart, hstop⟩ := ih.1 ⟨i, (hsucc i).1 hi⟩
          exact ⟨hle.trans (hnext.le.trans hstart), hstop⟩
      · rintro ⟨hstart, hstop⟩
        rcases lt_or_ge m leaf.stop with hm | hm
        · exact ⟨0, hzero.2 ⟨hstart, hm⟩⟩
        · obtain ⟨i, hi⟩ := ih.2 ⟨hnext ▸ hm, hstop⟩
          exact ⟨i + 1, (hsucc i).2 hi⟩

end ScaleLeaf

namespace TimeScale

variable {α : Type}

def indexAt? (s : TimeScale α) (m : Moment) : Option Nat := s.leaves.findIdx? (·.contains m)

def leafAt? (s : TimeScale α) (m : Moment) : Option (ScaleLeaf α) :=
  s.leaves.find? (·.contains m)

variable [Measure α]

def locationAt? (s : TimeScale α) (m : Moment) : Option α := (s.leafAt? m).map (·.location m)

/-- The end of a range: the place of its last moment, or the end of the last leaf. -/
def rangeEnd (s : TimeScale α) (stop : Moment) : α :=
  match s.leafAt? stop with
  | some leaf => leaf.location stop
  | none => s.lastLeaf.layoutEnd

def rangeBetween? (s : TimeScale α) (start stop : Moment) : Option (LayoutRange α) :=
  if stop ≤ start then none
  else
    match s.leafAt? start with
    | some leaf =>
      some ⟨leaf.location start, s.rangeEnd stop, s.rangeEnd stop - leaf.location start⟩
    | none => none

end TimeScale

def Query.answer {α : Type} [Measure α] (s : TimeScale α) : Query → Answer α
  | index m => .index (s.indexAt? m)
  | leaf m => .leaf (s.leafAt? m)
  | location m => .location (s.locationAt? m)
  | range start stop => .range (s.rangeBetween? start stop)

namespace TimeScale

variable {α : Type} {s : TimeScale α}

lemma findIndex_fst (h : ScaleLeaf.Contiguous s.leaves) (m : Moment) :
    (s.findIndex m).1 = s.indexAt? m := by
  unfold findIndex indexAt?
  rw [← ScaleLeaf.indexFrom?_eq_findIdx? h s.hint m]
  cases ScaleLeaf.indexFrom? s.leaves s.hint m <;> rfl

lemma findLeaf_fst (h : ScaleLeaf.Contiguous s.leaves) (m : Moment) :
    (s.findLeaf m).1 = s.leafAt? m := by
  obtain ⟨index, -, hs⟩ := s.findIndex_snd m
  change (s.findIndex m).1.bind ((s.findIndex m).2.leaves[·]?) = _
  rw [findIndex_fst h, hs]
  exact List.find?_eq_bind_findIdx?_getElem?.symm

variable [Measure α]

lemma location_fst (h : ScaleLeaf.Contiguous s.leaves) (m : Moment) :
    (s.location m).1 = s.locationAt? m := by
  change (s.findLeaf m).1.map (·.location m) = _
  rw [findLeaf_fst h, locationAt?]

lemma exists_location_eq (h : ScaleLeaf.Contiguous s.leaves) (m : Moment) :
    ∃ index, s.location m = (s.locationAt? m, { s with hint := index }) := by
  obtain ⟨index, -, hs⟩ := s.findIndex_snd m
  refine ⟨index, ?_⟩
  rw [← location_fst h, ← hs]
  rfl

lemma range_fst (h : ScaleLeaf.Contiguous s.leaves) (start stop : Moment) :
    (s.range start stop).1 = s.rangeBetween? start stop := by
  obtain ⟨index, hstart⟩ := exists_location_eq h start
  -- the second search starts where the first one ended, over the same leaves
  obtain ⟨index', hstop⟩ := exists_location_eq (s := { s with hint := index }) h stop
  unfold range rangeBetween?
  split_ifs with hle
  · rfl
  · rw [hstart, locationAt?]
    cases s.leafAt? start with
    | none => rfl
    | some leaf =>
      have hend : (s.locationAt? stop).getD s.lastLeaf.layoutEnd = s.rangeEnd stop := by
        unfold locationAt? rangeEnd
        cases s.leafAt? stop <;> rfl
      rw [← hend]
      simp only [Option.map_some, hstop]
      rfl

theorem ask_fst (h : ScaleLeaf.Contiguous s.leaves) (q : Query) : (q.ask s).1 = q.answer s := by
  cases q with
  | index m => exact congrArg Answer.index (findIndex_fst h m)
  | leaf m => exact congrArg Answer.leaf (findLeaf_fst h m)
  | location m => exact congrArg Answer.location (location_fst h m)
  | range start stop => exact congrArg Answer.range (range_fst h start stop)

lemma ask_snd (s : TimeScale α) (q : Query) : ∃ index, (q.ask s).2 = { s with hint := index } := by
  have hfind (s : TimeScale α) (m : Moment) :
      ∃ index, (s.findIndex m).2 = { s with hint := index } :=
    let ⟨index, _, hs⟩ := s.findIndex_snd m
    ⟨index, hs⟩
  cases q with
  | index m => exact hfind s m
  | leaf m => exact hfind s m
  | location m => exact hfind s m
  | range start stop =>
    obtain ⟨i, hi⟩ := hfind s start
    obtain ⟨j, hj⟩ := hfind { s with hint := i } stop
    rcases s.range_snd start stop with h | h | h
    · exact ⟨s.hint, h⟩
    · exact ⟨i, h.trans hi⟩
    · exact ⟨j, by rw [← hj, ← hi]; exact h⟩

lemma answer_hint (s : TimeScale α) (index : Nat) (q : Query) :
    q.answer { s with hint := index } = q.answer s := by
  cases q <;> rfl

/-- A question is answered as if it were the only one. -/
theorem askAll_eq_map (h : ScaleLeaf.Contiguous s.leaves) (qs : List Query) :
    s.askAll qs = qs.map fun q => q.answer s := by
  induction qs generalizing s with
  | nil => rfl
  | cons q qs ih =>
    obtain ⟨index, hs⟩ := s.ask_snd q
    have hrest := ih (s := { s with hint := index }) h
    simp only [answer_hint] at hrest
    rw [askAll, ask_fst h, hs, hrest, List.map_cons]

/-- In another order, the same questions get the same answers. -/
theorem zip_askAll_perm (h : ScaleLeaf.Contiguous s.leaves) {qs qs' : List Query}
    (hqs : qs.Perm qs') : (qs.zip (s.askAll qs)).Perm (qs'.zip (s.askAll qs')) := by
  have hzip (qs : List Query) : qs.zip (s.askAll qs) = qs.map fun q => (q, q.answer s) := by
    rw [askAll_eq_map h, ← List.map_prod_left_eq_zip]
  rw [hzip, hzip]
  exact hqs.map _

/-- What the answers of a scale are: the one leaf that contains a moment if there is one, nothing
outside the scale, and for every question what a search through all leaves gives. -/
structure AnswersByContent (s : TimeScale α) : Prop where
  findIndex_eq_some : ∀ m i, (s.findIndex m).1 = some i ↔
    ScaleLeaf.HasAt s.leaves m i ∧ ∀ j, ScaleLeaf.HasAt s.leaves m j → j = i
  findIndex_eq_none : ∀ m, (s.findIndex m).1 = none ↔ m < s.start ∨ s.stop ≤ m
  ask_eq : ∀ q : Query, (q.ask s).1 = q.answer s
  range_eq_none : ∀ start stop, (s.range start stop).1 = none ↔
    stop ≤ start ∨ start < s.start ∨ s.stop ≤ start
  stop_le_of_range : ∀ start stop, (s.range start stop).1.isSome → s.leafAt? stop = none →
    s.stop ≤ stop
  askAll_eq : ∀ qs, s.askAll qs = qs.map fun q => q.answer s
  askAll_perm : ∀ qs qs' : List Query, qs.Perm qs' →
    (qs.zip (s.askAll qs)).Perm (qs'.zip (s.askAll qs'))

omit [Measure α] in
lemma findIndex_eq_some_iff (h : ScaleLeaf.Contiguous s.leaves) (m : Moment) (i : Nat) :
    (s.findIndex m).1 = some i ↔
      ScaleLeaf.HasAt s.leaves m i ∧ ∀ j, ScaleLeaf.HasAt s.leaves m j → j = i := by
  rw [findIndex_fst h]
  constructor
  · intro hi
    have hi := ScaleLeaf.hasAt_of_findIdx? hi
    exact ⟨hi, fun j hj => hj.unique h hi⟩
  · rintro ⟨hi, -⟩
    cases hf : s.indexAt? m with
    | none => exact absurd hi (ScaleLeaf.findIdx?_eq_none hf i)
    | some j => rw [hi.unique h (ScaleLeaf.hasAt_of_findIdx? hf)]

omit [Measure α] in
lemma findIndex_eq_none_iff (h : ScaleLeaf.Contiguous s.leaves) (m : Moment) :
    (s.findIndex m).1 = none ↔ m < s.start ∨ s.stop ≤ m := by
  have hiff : (m < s.start ∨ s.stop ≤ m) ↔ ¬ ∃ i, ScaleLeaf.HasAt s.leaves m i := by
    rw [h.exists_hasAt_iff s.leaves_ne_nil, not_and_or, not_le, not_lt]
    rfl
  rw [findIndex_fst h, hiff]
  constructor
  · rintro hf ⟨i, hi⟩
    exact ScaleLeaf.findIdx?_eq_none hf i hi
  · intro hnot
    cases hf : s.indexAt? m with
    | none => rfl
    | some i => exact absurd ⟨i, ScaleLeaf.hasAt_of_findIdx? hf⟩ hnot

omit [Measure α] in
lemma leafAt?_eq_none_iff (h : ScaleLeaf.Contiguous s.leaves) (m : Moment) :
    s.leafAt? m = none ↔ m < s.start ∨ s.stop ≤ m := by
  rw [← findIndex_eq_none_iff h, findIndex_fst h, leafAt?, indexAt?, List.find?_eq_none,
    List.findIdx?_eq_none_iff]
  simp

lemma range_eq_none_iff (h : ScaleLeaf.Contiguous s.leaves) (start stop : Moment) :
    (s.range start stop).1 = none ↔ stop ≤ start ∨ start < s.start ∨ s.stop ≤ start := by
  rw [range_fst h, ← leafAt?_eq_none_iff h, rangeBetween?]
  split_ifs with hle
  · simp [hle]
  · cases s.leafAt? start <;> simp [hle]

/-- A range that starts on the scale can only miss its end past the end of the scale. -/
lemma stop_le_of_range_isSome (h : ScaleLeaf.Contiguous s.leaves) {start stop : Moment}
    (hrange : (s.range start stop).1.isSome) (hstop : s.leafAt? stop = none) : s.stop ≤ stop := by
  have hne := mt (range_eq_none_iff h start stop).2 (Option.isSome_iff_ne_none.1 hrange)
  simp only [not_or, not_le, not_lt] at hne
  obtain ⟨hlt, hstart, -⟩ := hne
  rcases (leafAt?_eq_none_iff h stop).1 hstop with hbefore | hafter
  · exact absurd (hbefore.trans_le hstart) hlt.asymm
  · exact hafter

theorem answersByContent (h : ScaleLeaf.Contiguous s.leaves) : s.AnswersByContent where
  findIndex_eq_some := findIndex_eq_some_iff h
  findIndex_eq_none := findIndex_eq_none_iff h
  ask_eq := ask_fst h
  range_eq_none := range_eq_none_iff h
  stop_le_of_range _ _ := stop_le_of_range_isSome h
  askAll_eq := askAll_eq_map h
  askAll_perm _ _ := zip_askAll_perm h

/-- After any run of edits and questions on a built scale, wherever the next search starts, a scale
answers by its contents alone. -/
theorem run_answersByContent {descriptors : List (ScaleDescriptor Float)} {size : Float}
    {built : TimeScale Float} (h : build descriptors size = .ok built)
    (ops : List (Operation Float)) (hint : Nat) :
    AnswersByContent { (built.run ops).2 with hint := hint } :=
  answersByContent (wellFormed_run h ops).contiguous

/-- The search starts beyond the last leaf after the scale has been moved. -/
theorem run_answersByContent_quarters :
    ∃ built, build quarters (Measure.ofInt 100) = .ok built ∧
      AnswersByContent
        { (built.run [.edit (.moveTo (.text "2025-02-01")), .ask (.index built.start)]).2 with
          hint := 7 } := by
  obtain ⟨built, h⟩ := exists_build_quarters
  exact ⟨built, h, run_answersByContent h _ 7⟩

end TimeScale

end Timeline
