import Timeline.Proofs.Result
import Timeline.Proofs.Scale.Run
import Timeline.Proofs.Scale.Scan

/-! # Contiguity

The leaves of a scale follow one another without gaps in time and on the axis, whatever was done to
the scale since it was built. -/
namespace Timeline

namespace ScaleLeaf

variable {α : Type}

def extent (leaf : ScaleLeaf α) : Moment × Moment := (leaf.start, leaf.stop)

def layoutExtent (leaf : ScaleLeaf α) : α × α := (leaf.layoutStart, leaf.layoutEnd)

/-- What the template says of a leaf. -/
def template (leaf : ScaleLeaf α) : Moment × Option Moment × α :=
  (leaf.defaultStart, leaf.defaultStop, leaf.unit)

/-- The starts with the ends that they have when the last leaf ends at `stop`. -/
def pairs (starts : List Moment) (stop : Moment) : List (Moment × Moment) :=
  starts.zip (starts.tail ++ [stop])

lemma pairs_cons (start : Moment) (starts : List Moment) (stop : Moment) :
    pairs (start :: starts) stop = (start, starts.headD stop) :: pairs starts stop := by
  cases starts <;> rfl

lemma length_pairs (starts : List Moment) (stop : Moment) :
    (pairs starts stop).length = starts.length := by
  cases starts <;> simp [pairs]

lemma isChain_pairs (starts : List Moment) (stop : Moment) :
    (pairs starts stop).IsChain fun p q => p.2 = q.1 := by
  induction starts with
  | nil => exact .nil
  | cons start starts ih =>
    cases starts with
    | nil => exact .singleton _
    | cons next starts =>
      rw [pairs_cons, pairs_cons]
      rw [pairs_cons] at ih
      exact List.isChain_cons_cons.2 ⟨rfl, ih⟩

/-- Bounds are found for starts and an end exactly if they do not decrease, and then they are the
pairs of neighbours. -/
theorem bounds_eq_ok_iff {index : Nat} {starts : List Moment} {stop : Moment}
    {bs : List (Moment × Moment)} :
    bounds index starts stop = .ok bs ↔
      bs = pairs starts stop ∧ ∀ p ∈ pairs starts stop, p.1 ≤ p.2 := by
  induction starts generalizing index bs with
  | nil =>
    simp only [bounds, pairs, Except.ok.injEq, List.zip_nil_left, List.not_mem_nil, false_imp_iff,
      implies_true, and_true]
    exact eq_comm
  | cons start starts ih =>
    simp only [pairs_cons, List.forall_mem_cons, bounds, bind, Except.bind]
    cases hb : bounds (index + 1) starts stop with
    | error cause =>
      have hd : ¬ ∀ p ∈ pairs starts stop, p.1 ≤ p.2 := fun h => by
        rw [ih.2 ⟨rfl, h⟩] at hb
        cases hb
      exact ⟨nofun, fun h => absurd h.2.2 hd⟩
    | ok later =>
      obtain ⟨rfl, hle⟩ := ih.1 hb
      by_cases hlt : starts.headD stop < start
      · simp only [hlt, if_true]
        exact ⟨nofun, fun h => absurd hlt (not_lt.2 h.2.1)⟩
      · simp only [hlt, if_false, Except.ok.injEq]
        exact ⟨fun h => ⟨h.symm, not_lt.1 hlt, hle⟩, fun h => h.1.symm⟩

variable {β : Type}

lemma map_extent_setAllBounds {leaves : List (ScaleLeaf α)} {bs : List (Moment × Moment)}
    (h : bs.length = leaves.length) : (setAllBounds leaves bs).map extent = bs := by
  induction leaves generalizing bs with
  | nil => simpa [setAllBounds] using (List.length_eq_zero_iff.1 h).symm
  | cons leaf leaves ih =>
    cases bs with
    | nil => simp at h
    | cons b bs => simp [setAllBounds, setBounds, extent, ih (Nat.succ.inj h)]

lemma map_setAllBounds {f : ScaleLeaf α → β}
    (hf : ∀ leaf start stop, f (setBounds leaf start stop) = f leaf) (leaves : List (ScaleLeaf α))
    (bs : List (Moment × Moment)) : (setAllBounds leaves bs).map f = leaves.map f := by
  fun_induction setAllBounds leaves bs with
  | case1 leaf leaves start stop rest ih => simp [hf, ih]
  | case2 => rfl

lemma length_of_mem_setAllBounds {leaves : List (ScaleLeaf α)} {bs : List (Moment × Moment)}
    (h : bs.length = leaves.length) :
    ∀ leaf ∈ setAllBounds leaves bs, leaf.length = leaf.start.durationTo leaf.stop := by
  induction leaves generalizing bs with
  | nil => simp [setAllBounds]
  | cons leaf leaves ih =>
    cases bs with
    | nil => simp at h
    | cons b bs =>
      simp only [setAllBounds, List.forall_mem_cons]
      exact ⟨rfl, ih (Nat.succ.inj h)⟩

lemma contiguous_iff {leaves : List (ScaleLeaf α)} :
    Contiguous leaves ↔ (∀ p ∈ leaves.map extent, p.1 ≤ p.2) ∧
      (leaves.map extent).IsChain fun p q => p.2 = q.1 := by
  rw [List.isChain_map, List.forall_mem_map]
  exact ⟨fun h => ⟨h.ordered, h.adjoining⟩, fun h => ⟨h.1, h.2⟩⟩

variable [Measure α]

/-- The leaves lie on the axis one after another without gaps, from its origin on. -/
structure LaidOut (leaves : List (ScaleLeaf α)) : Prop where
  zero : ∀ leaf ∈ leaves.head?, leaf.layoutStart = Measure.zero
  adjoining : leaves.IsChain fun a b => b.layoutStart = a.layoutEnd

lemma laidOut_iff {leaves : List (ScaleLeaf α)} :
    LaidOut leaves ↔ (∀ p ∈ (leaves.map layoutExtent).head?, p.1 = Measure.zero) ∧
      (leaves.map layoutExtent).IsChain fun p q => q.1 = p.2 := by
  rw [List.isChain_map, List.head?_map]
  refine ⟨fun h => ⟨?_, h.adjoining⟩, fun h => ⟨?_, h.2⟩⟩
  · intro p hp
    obtain ⟨leaf, hleaf, rfl⟩ := Option.map_eq_some_iff.1 hp
    exact h.zero leaf hleaf
  · exact fun leaf hleaf => h.1 leaf.layoutExtent (Option.mem_map_of_mem _ hleaf)

lemma map_place {f : ScaleLeaf α → β}
    (hf : ∀ leaf start size stop,
      f { leaf with layoutStart := start, layoutSize := size, layoutEnd := stop } = f leaf)
    (unitSize offset : α) (leaves : List (ScaleLeaf α)) :
    (place unitSize offset leaves).map f = leaves.map f := by
  induction leaves generalizing offset with
  | nil => rfl
  | cons leaf leaves ih => simp [place, hf, ih]

lemma laidOut_place (unitSize : α) (leaves : List (ScaleLeaf α)) :
    LaidOut (place unitSize Measure.zero leaves) := by
  refine ⟨?_, ?_⟩
  · cases leaves <;> simp [place]
  · generalize (Measure.zero : α) = offset
    induction leaves generalizing offset with
    | nil => exact .nil
    | cons leaf leaves ih =>
      cases leaves with
      | nil => exact .singleton _
      | cons next leaves => exact List.isChain_cons_cons.2 ⟨rfl, ih _⟩

end ScaleLeaf

namespace TimeScale

variable {α : Type}

theorem setStarts_eq_ok_iff {s s' : TimeScale α} {starts : List Moment} {stop? : Option Moment} :
    s.setStarts starts stop? = .ok s' ↔
      ∃ stop, stop? = some stop ∧ (∀ p ∈ ScaleLeaf.pairs starts stop, p.1 ≤ p.2) ∧
        ∃ h, s' = ⟨s.groups, ScaleLeaf.setAllBounds s.leaves (ScaleLeaf.pairs starts stop),
          s.unitCount, s.size, 0, h⟩ := by
  cases stop? with
  | none => simp [setStarts]
  | some stop =>
    simp only [setStarts, bind, Except.bind, Option.some.injEq, exists_eq_left']
    cases hb : ScaleLeaf.bounds 0 starts stop with
    | error cause =>
      have hd : ¬ ∀ p ∈ ScaleLeaf.pairs starts stop, p.1 ≤ p.2 := fun h => by
        rw [ScaleLeaf.bounds_eq_ok_iff.2 ⟨rfl, h⟩] at hb
        cases hb
      exact ⟨nofun, fun h => absurd h.1 hd⟩
    | ok bs =>
      obtain ⟨rfl, hle⟩ := ScaleLeaf.bounds_eq_ok_iff.1 hb
      constructor
      · rintro ⟨⟩
        exact ⟨hle, _, rfl⟩
      · rintro ⟨-, h, rfl⟩
        rfl

/-- A scale after an edit or a question: with new starts and a new end, with a new layout, with new
groups, or with another leaf where the next search starts. -/
inductive Changed [Measure α] (s : TimeScale α) : TimeScale α → Prop
  | times {starts : List Moment} {stop? : Option Moment} {s' : TimeScale α}
      (length : starts.length = s.leaves.length) (set : s.setStarts starts stop? = .ok s') :
      Changed s s'
  | layout (size : α) : Changed s (s.setSize size)
  | groups (groups : List ScaleGroup) : Changed s { s with groups := groups }
  | hint {index : Nat} (h : index = s.hint ∨ index < s.leaves.length) :
      Changed s { s with hint := index }

lemma length_replaceTimes (starts : List Moment) (stop : Moment) (times : List Moment) :
    (replaceTimes starts stop times).1.length = starts.length := by
  fun_induction replaceTimes starts stop times <;> simp_all

variable [Measure α]

omit [Measure α] in
lemma exists_of_moveTo {s s' : TimeScale α} {v : TimeValue} (h : s.moveTo v = .ok s') :
    ∃ starts stop?, starts.length = s.leaves.length ∧ s.setStarts starts stop? = .ok s' := by
  obtain ⟨target, -, h⟩ := Except.bind_eq_ok_iff.1 h
  obtain ⟨starts, hstarts, h⟩ := Except.bind_eq_ok_iff.1 h
  obtain ⟨stop, -, h⟩ := Except.bind_eq_ok_iff.1 h
  exact ⟨starts, some stop, by simpa using Except.length_of_mapM_eq_ok hstarts, h⟩

/-- An edit of the times sets the starts and the end. -/
theorem exists_setStarts_of_edit {s s' : TimeScale α} {e : Edit α} (he : e.kind = .times)
    (h : e.apply s = .ok s') :
    ∃ starts stop?, starts.length = s.leaves.length ∧ s.setStarts starts stop? = .ok s' := by
  cases e with
  | setTimes values =>
    obtain ⟨times, -, h⟩ := Except.bind_eq_ok_iff.1 h
    exact ⟨_, _, by simp [length_replaceTimes], h⟩
  | moveTo v => exact exists_of_moveTo h
  | setPrimeDate v map =>
    cases map with
    | none => exact exists_of_moveTo h
    | some map =>
      obtain ⟨date, -, h⟩ := Except.bind_eq_ok_iff.1 h
      obtain ⟨prime, -, h⟩ := Except.bind_eq_ok_iff.1 h
      exact exists_of_moveTo h
  | restore => exact ⟨_, _, by simp, h⟩
  | setSize | setDisplay | restoreDisplay => cases he

/-- What an edit that does not fail makes of a scale. -/
theorem exists_of_edit {s s' : TimeScale α} {e : Edit α} (h : e.apply s = .ok s') :
    (∃ starts stop?, starts.length = s.leaves.length ∧ s.setStarts starts stop? = .ok s') ∨
      (∃ size, s' = s.setSize size) ∨ (∃ entries, s' = s.setDisplay entries) ∨
        s' = s.restoreDisplay := by
  cases e with
  | setTimes | moveTo | setPrimeDate | restore => exact .inl (exists_setStarts_of_edit rfl h)
  | setSize size =>
    cases h
    exact .inr (.inl ⟨size, rfl⟩)
  | setDisplay entries =>
    cases h
    exact .inr (.inr (.inl ⟨entries, rfl⟩))
  | restoreDisplay =>
    cases h
    exact .inr (.inr (.inr rfl))

theorem Changed.of_edit {s s' : TimeScale α} {e : Edit α} (h : e.apply s = .ok s') :
    s.Changed s' := by
  obtain ⟨starts, stop?, hlength, h⟩ | ⟨size, rfl⟩ | ⟨entries, rfl⟩ | rfl := exists_of_edit h
  · exact .times hlength h
  · exact .layout size
  · exact .groups _
  · exact .groups _

omit [Measure α] in
lemma findIndex_snd (s : TimeScale α) (m : Moment) :
    ∃ index, (index = s.hint ∨ index < s.leaves.length) ∧
      (s.findIndex m).2 = { s with hint := index } := by
  unfold findIndex
  split
  · next index h => exact ⟨index, .inr (ScaleLeaf.hasAt_of_indexFrom? h).lt, rfl⟩
  · exact ⟨s.hint, .inl rfl, rfl⟩

lemma Changed.of_findIndex (s : TimeScale α) (m : Moment) : s.Changed (s.findIndex m).2 := by
  obtain ⟨index, hindex, h⟩ := s.findIndex_snd m
  rw [h]
  exact .hint hindex

lemma range_snd (s : TimeScale α) (start stop : Moment) :
    (s.range start stop).2 = s ∨ (s.range start stop).2 = (s.findIndex start).2 ∨
      (s.range start stop).2 = ((s.findIndex start).2.findIndex stop).2 := by
  unfold range
  split_ifs
  · exact .inl rfl
  · rw [show s.location start = ((s.location start).1, (s.findIndex start).2) from rfl]
    cases (s.location start).1 with
    | none => exact .inr (.inl rfl)
    | some first => exact .inr (.inr rfl)

lemma Changed.of_range (s : TimeScale α) (start stop : Moment) :
    s.Changed (s.range start stop).2 := by
  rcases s.range_snd start stop with h | h | h <;> rw [h]
  · exact .hint (.inl rfl)
  · exact .of_findIndex s start
  · obtain ⟨i, hi, hs⟩ := s.findIndex_snd start
    obtain ⟨j, hj, hs'⟩ := (s.findIndex start).2.findIndex_snd stop
    rw [hs', hs]
    refine .hint ?_
    rw [hs] at hj
    rcases hj with rfl | hj
    · exact hi
    · exact .inr hj

lemma Changed.of_ask (s : TimeScale α) (q : Query) : s.Changed (q.ask s).2 := by
  cases q with
  | index m => exact .of_findIndex s m
  | leaf m => exact .of_findIndex s m
  | location m => exact .of_findIndex s m
  | range start stop => exact .of_range s start stop

/-- An operation changes a scale in one of the four ways or not at all. -/
theorem Changed.of_perform (s : TimeScale α) (op : Operation α) : s.Changed (s.perform op).2 := by
  cases op with
  | ask q => exact .of_ask s q
  | edit e =>
    simp only [perform]
    split
    · next h => exact .of_edit h
    · exact .hint (.inl rfl)

/-- What holds of a scale at all times. What the template says of the leaves does not change. -/
structure WellFormed (template : List (Moment × Option Moment × α)) (s : TimeScale α) : Prop where
  leaves_ne_nil : s.leaves ≠ []
  contiguous : ScaleLeaf.Contiguous s.leaves
  length_eq : ∀ leaf ∈ s.leaves, leaf.length = leaf.start.durationTo leaf.stop
  hint_lt : s.hint < s.leaves.length
  laidOut : ScaleLeaf.LaidOut s.leaves
  template_eq : s.leaves.map ScaleLeaf.template = template

variable {template : List (Moment × Option Moment × α)} {s s' : TimeScale α}

omit [Measure α] in
/-- New starts and a new end make a scale contiguous, whatever it was before. -/
lemma contiguous_of_setStarts {starts : List Moment} {stop? : Option Moment}
    (hlength : starts.length = s.leaves.length) (hs : s.setStarts starts stop? = .ok s') :
    ScaleLeaf.Contiguous s'.leaves ∧
      ∀ leaf ∈ s'.leaves, leaf.length = leaf.start.durationTo leaf.stop := by
  obtain ⟨stop, -, hle, hne, rfl⟩ := setStarts_eq_ok_iff.1 hs
  have hpairs : (ScaleLeaf.pairs starts stop).length = s.leaves.length := by
    rw [ScaleLeaf.length_pairs, hlength]
  refine ⟨?_, ScaleLeaf.length_of_mem_setAllBounds hpairs⟩
  rw [ScaleLeaf.contiguous_iff, ScaleLeaf.map_extent_setAllBounds hpairs]
  exact ⟨hle, ScaleLeaf.isChain_pairs starts stop⟩

lemma WellFormed.of_setStarts (h : s.WellFormed template) {starts : List Moment}
    {stop? : Option Moment} (hlength : starts.length = s.leaves.length)
    (hs : s.setStarts starts stop? = .ok s') : s'.WellFormed template := by
  obtain ⟨hcontiguous, hlengths⟩ := contiguous_of_setStarts hlength hs
  obtain ⟨stop, -, -, hne, rfl⟩ := setStarts_eq_ok_iff.1 hs
  refine ⟨hne, hcontiguous, hlengths, ?_, ?_, ?_⟩
  · rw [ScaleLeaf.length_setAllBounds]
    exact List.length_pos_iff.2 h.leaves_ne_nil
  · rw [ScaleLeaf.laidOut_iff, ScaleLeaf.map_setAllBounds fun _ _ _ => rfl]
    exact ScaleLeaf.laidOut_iff.1 h.laidOut
  · rw [← h.template_eq]
    exact ScaleLeaf.map_setAllBounds (fun _ _ _ => rfl) _ _

/-- A new layout needs no layout before it. -/
lemma wellFormed_setSize (hcontiguous : ScaleLeaf.Contiguous s.leaves)
    (hlengths : ∀ leaf ∈ s.leaves, leaf.length = leaf.start.durationTo leaf.stop)
    (hhint : s.hint < s.leaves.length) (size : α) :
    (s.setSize size).WellFormed (s.leaves.map ScaleLeaf.template) := by
  have hmap {β : Type} {f : ScaleLeaf α → β} (hf : ∀ leaf start size stop,
      f { leaf with layoutStart := start, layoutSize := size, layoutEnd := stop } = f leaf) :
      (s.setSize size).leaves.map f = s.leaves.map f := ScaleLeaf.map_place hf _ _ _
  refine ⟨(s.setSize size).leaves_ne_nil, ?_, ?_, ?_, ScaleLeaf.laidOut_place _ _, ?_⟩
  · rw [ScaleLeaf.contiguous_iff, hmap fun _ _ _ _ => rfl]
    exact ScaleLeaf.contiguous_iff.1 hcontiguous
  · have hlength : ∀ t ∈ s.leaves.map fun leaf => (leaf.length, leaf.extent),
        t.1 = t.2.1.durationTo t.2.2 := List.forall_mem_map.2 hlengths
    rw [← hmap fun _ _ _ _ => rfl] at hlength
    exact List.forall_mem_map.1 hlength
  · change s.hint < (ScaleLeaf.place _ _ s.leaves).length
    rw [ScaleLeaf.length_place]
    exact hhint
  · exact hmap fun _ _ _ _ => rfl

theorem WellFormed.of_changed (h : s.WellFormed template) (hs : s.Changed s') :
    s'.WellFormed template := by
  cases hs with
  | times hlength hset => exact h.of_setStarts hlength hset
  | layout size =>
    rw [← h.template_eq]
    exact wellFormed_setSize h.contiguous h.length_eq h.hint_lt size
  | groups groups => exact ⟨h.1, h.2, h.3, h.4, h.5, h.6⟩
  | hint hindex =>
    refine ⟨h.1, h.2, h.3, ?_, h.5, h.6⟩
    rcases hindex with rfl | hindex
    · exact h.hint_lt
    · exact hindex

def templateOf (descriptors : List (ScaleDescriptor α)) : List (Moment × Option Moment × α) :=
  ((leafOrder (ScaleGroup.ofDescriptors descriptors)).filterMap (descriptors[·]?)).map
    fun d => (d.start, d.stop?, d.unit)

lemma wellFormed_of_build {descriptors : List (ScaleDescriptor α)} {size : α}
    (h : build descriptors size = .ok s) : s.WellFormed (templateOf descriptors) := by
  unfold build at h
  dsimp only at h
  split_ifs at h with hne
  obtain ⟨restored, hrestored, h⟩ := Except.bind_eq_ok_iff.1 h
  cases h
  obtain ⟨hcontiguous, hlengths⟩ := contiguous_of_setStarts (by simp) hrestored
  obtain ⟨stop, -, -, hne', rfl⟩ := setStarts_eq_ok_iff.1 hrestored
  have htemplate := wellFormed_setSize hcontiguous hlengths (List.length_pos_iff.2 hne') size
  rw [ScaleLeaf.map_setAllBounds fun _ _ _ => rfl, List.map_map] at htemplate
  exact htemplate

/-- Whatever is done to a built scale, it stays well formed. -/
theorem wellFormed_run {descriptors : List (ScaleDescriptor α)} {size : α}
    (h : build descriptors size = .ok s) (ops : List (Operation α)) :
    (s.run ops).2.WellFormed (templateOf descriptors) :=
  run_induction (wellFormed_of_build h) (fun _ op hs => hs.of_changed (.of_perform _ op)) ops

/-- A weight is taken only if it is finite and positive, and so is the one that stands in for it. -/
lemma unit_usable (d : ScaleDescriptor Float) :
    Measure.isFinite d.unit = true ∧ Measure.less Measure.zero d.unit = true := by
  have hone : Measure.isFinite (Measure.one : Float) = true ∧
      Measure.less Measure.zero (Measure.one : Float) = true := by decide
  unfold ScaleDescriptor.unit
  split
  · split_ifs with hw
    · simpa using hw
    · exact hone
  · exact hone

/-- After any run of edits and questions on a built scale, its leaves follow one another without
gaps in time and on the axis, the search starts at one of them, and what the template says of them
is as it was built, with finite and positive units. -/
theorem leaves_wellFormed {descriptors : List (ScaleDescriptor Float)} {size : Float}
    {built : TimeScale Float} (h : build descriptors size = .ok built)
    (ops : List (Operation Float)) :
    (built.run ops).2.WellFormed (templateOf descriptors) ∧
      built.leaves.map ScaleLeaf.template = templateOf descriptors ∧
      ∀ leaf ∈ (built.run ops).2.leaves,
        Measure.isFinite leaf.unit = true ∧ Measure.less Measure.zero leaf.unit = true := by
  have hrun := wellFormed_run h ops
  refine ⟨hrun, (wellFormed_of_build h).template_eq, fun leaf hleaf => ?_⟩
  have hmem : leaf.template ∈ templateOf descriptors := by
    rw [← hrun.template_eq]
    exact List.mem_map_of_mem hleaf
  obtain ⟨d, -, hd⟩ := List.mem_map.1 hmem
  have hunit : d.unit = leaf.unit := congrArg (·.2.2) hd
  rw [← hunit]
  exact unit_usable d

omit [Measure α] in
/-- Leaves that stand in the tree in the order of their descriptors need not be sorted. -/
lemma leafOrder_eq {groups : List ScaleGroup} {order : List Nat}
    (h : ScaleGroup.allLeafDescriptors groups = order) (hsorted : order.Pairwise (· ≤ ·)) :
    leafOrder groups = order := by
  rw [leafOrder, h]
  exact List.mergeSort_of_pairwise (by simpa using hsorted)

/-- Two quarters with a leaf between them that contains nothing. -/
def quarters : List (ScaleDescriptor Float) :=
  [⟨"Q1", none, some "2024-01-01", none, none⟩, ⟨"-", none, some "2024-04-01", none, none⟩,
    ⟨"Q2", none, some "2024-04-01", some "2024-07-01", none⟩]

lemma leafOrder_quarters : leafOrder (ScaleGroup.ofDescriptors quarters) = [0, 1, 2] :=
  leafOrder_eq (by decide) (by decide)

lemma exists_build_quarters : ∃ built, build quarters (Measure.ofInt 100) = .ok built := by
  have hbuild : (build quarters (Measure.ofInt 100)).toOption.any fun _ => true := by
    simp only [build, leafOrder_quarters]
    decide +kernel
  obtain ⟨built, hbuilt, -⟩ := Except.exists_of_any_toOption hbuild
  exact ⟨built, hbuilt⟩

/-- The scale moves to a February, refuses starts that decrease, and is asked for a moment. -/
theorem leaves_wellFormed_quarters :
    ∃ built, build quarters (Measure.ofInt 100) = .ok built ∧
      (built.run [.edit (.moveTo (.text "2025-02-01")),
        .edit (.setTimes [.text "2026-01-01", .text "2025-01-01"]),
        .ask (.index built.stop)]).2.WellFormed (templateOf quarters) := by
  obtain ⟨built, h⟩ := exists_build_quarters
  exact ⟨built, h, (leaves_wellFormed h _).1⟩

end TimeScale

end Timeline
