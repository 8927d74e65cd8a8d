import Timeline.Proofs.Scale.Lookup
import Timeline.Proofs.Scale.Numbering

/-! # Back to the template

Edits write over the starts, the ends, the layout and the texts of a scale, but not over what the
template says of them. So from wherever a run has led, a scale can be made again what building it
with its size gives, in every field. -/
namespace Timeline

namespace ScaleGroup

mutual

theorem restoreText_restoreText (g : ScaleGroup) : restoreText (restoreText g) = restoreText g := by
  cases g with
  | mk key defaultText text descriptor leaf children =>
    simp only [restoreText, restoreTexts_restoreTexts children]

theorem restoreTexts_restoreTexts (level : List ScaleGroup) :
    restoreTexts (restoreTexts level) = restoreTexts level := by
  cases level with
  | nil => rfl
  | cons g level =>
    simp only [restoreTexts, restoreText_restoreText g, restoreTexts_restoreTexts level]

end

mutual

theorem restoreText_applyTo (entry : DisplayEntry) (g : ScaleGroup) :
    restoreText (entry.applyTo g) = restoreText g := by
  cases entry with
  | text s => cases g; rfl
  | group s entries =>
    cases g with
    | mk key defaultText text descriptor leaf children =>
      simp only [DisplayEntry.applyTo, restoreText, restoreTexts_overlay entries children]

/-- The texts of an overlay give way to the default texts. -/
theorem restoreTexts_overlay (entries : List (Option DisplayEntry)) (level : List ScaleGroup) :
    restoreTexts (DisplayEntry.overlay entries level) = restoreTexts level := by
  match entries, level with
  | [], level => simp only [DisplayEntry.overlay]
  | _ :: _, [] => simp only [DisplayEntry.overlay]
  | none :: entries, g :: level =>
    simp only [DisplayEntry.overlay, restoreTexts, restoreTexts_overlay entries level]
  | some entry :: entries, g :: level =>
    simp only [DisplayEntry.overlay, restoreTexts, restoreText_applyTo entry g,
      restoreTexts_overlay entries level]

end

mutual

theorem restoreText_eq_self (above : List String) (g : ScaleGroup)
    (h : ∀ node ∈ nodes above g, node.2.text = node.2.defaultText) : restoreText g = g := by
  cases g with
  | mk key defaultText text descriptor leaf children =>
    rw [nodes, List.forall_mem_cons] at h
    obtain ⟨htext, hchildren⟩ := h
    replace htext : text = defaultText := htext
    rw [restoreText, restoreTexts_eq_self _ children hchildren, htext]

/-- Groups that show their default texts are as restoring makes them. -/
theorem restoreTexts_eq_self (above : List String) (level : List ScaleGroup)
    (h : ∀ node ∈ allNodes above level, node.2.text = node.2.defaultText) :
    restoreTexts level = level := by
  cases level with
  | nil => rfl
  | cons g level =>
    rw [allNodes, List.forall_mem_append] at h
    rw [restoreTexts, restoreText_eq_self above g h.1, restoreTexts_eq_self above level h.2]

end

end ScaleGroup

namespace ScaleLeaf

variable {α : Type} [Measure α]

lemma place_place (unitSize unitSize' offset offset' : α) (leaves : List (ScaleLeaf α)) :
    place unitSize offset (place unitSize' offset' leaves) = place unitSize offset leaves := by
  induction leaves generalizing offset offset' with
  | nil => rfl
  | cons leaf leaves ih => simp only [place, ih]

/-- The layout of leaves is not up to their bounds. -/
lemma place_setAllBounds (unitSize offset : α) (leaves : List (ScaleLeaf α))
    (bs : List (Moment × Moment)) :
    place unitSize offset (setAllBounds leaves bs) =
      setAllBounds (place unitSize offset leaves) bs := by
  induction leaves generalizing offset bs with
  | nil => rfl
  | cons leaf leaves ih =>
    cases bs with
    | nil => rfl
    | cons b bs => simp only [setAllBounds, place, setBounds, ih]

/-- With bounds and a layout, leaves are made of what the template says of them. -/
lemma place_setAllBounds_congr {leaves leaves' : List (ScaleLeaf α)}
    (h : leaves.map template = leaves'.map template) {bs : List (Moment × Moment)}
    (hbs : bs.length = leaves.length) (unitSize offset : α) :
    place unitSize offset (setAllBounds leaves bs) =
      place unitSize offset (setAllBounds leaves' bs) := by
  induction leaves generalizing leaves' bs offset with
  | nil =>
    rw [List.map_nil, eq_comm, List.map_eq_nil_iff] at h
    rw [h]
  | cons leaf leaves ih =>
    cases leaves' with
    | nil => cases h
    | cons leaf' leaves' =>
      cases bs with
      | nil => cases hbs
      | cons b bs =>
        obtain ⟨hleaf, hleaves⟩ := List.cons.inj h
        simp only [template, Prod.mk.injEq] at hleaf
        obtain ⟨hstart, hstop, hunit⟩ := hleaf
        simp only [setAllBounds, place, setBounds, hstart, hstop, hunit,
          ih hleaves (Nat.succ.inj hbs)]

end ScaleLeaf

namespace TimeScale

variable {α : Type} {s s' built : TimeScale α}

/-- Restoring takes the starts and the end from what the template says of the leaves. -/
lemma restore_eq_setStarts {leaves : List (ScaleLeaf α)}
    (h : s.leaves.map ScaleLeaf.template = leaves.map ScaleLeaf.template) (hne : leaves ≠ []) :
    s.restore = s.setStarts (leaves.map (·.defaultStart)) (leaves.getLast hne).defaultStop := by
  have hstarts (leaves : List (ScaleLeaf α)) : leaves.map (·.defaultStart) =
      (leaves.map ScaleLeaf.template).map Prod.fst := by
    rw [List.map_map]
    rfl
  have hlast {leaves : List (ScaleLeaf α)} (hne : leaves ≠ []) :
      (leaves.map ScaleLeaf.template).getLast? = some (leaves.getLast hne).template := by
    rw [List.getLast?_map, List.getLast?_eq_some_getLast hne]
    rfl
  have htemplate : s.lastLeaf.template = (leaves.getLast hne).template := by
    rw [← Option.some.injEq, ← hlast, ← h]
    exact (hlast s.leaves_ne_nil).symm
  have hstop : s.lastLeaf.defaultStop = (leaves.getLast hne).defaultStop :=
    congrArg (·.2.1) htemplate
  rw [restore, hstop, hstarts, h, ← hstarts]

variable [Measure α]

/-- What of a scale is left of the one that was built, whatever was done to it since: what the
template says of its leaves, its unit count and its groups apart from their texts. Its layout is
the one for its size. -/
structure Restorable (built s : TimeScale α) : Prop where
  template_eq : s.leaves.map ScaleLeaf.template = built.leaves.map ScaleLeaf.template
  unitCount_eq : s.unitCount = built.unitCount
  groups_eq : ScaleGroup.restoreTexts s.groups = built.groups
  place_eq :
    ScaleLeaf.place (ScaleLeaf.unitSize s.size s.unitCount) Measure.zero s.leaves = s.leaves

namespace Restorable

lemma of_setStarts (h : built.Restorable s) {starts : List Moment} {stop? : Option Moment}
    (hs : s.setStarts starts stop? = .ok s') : built.Restorable s' := by
  obtain ⟨stop, -, -, hne, rfl⟩ := setStarts_eq_ok_iff.1 hs
  refine ⟨?_, h.unitCount_eq, h.groups_eq, ?_⟩
  · rw [← h.template_eq]
    exact ScaleLeaf.map_setAllBounds (fun _ _ _ => rfl) _ _
  · rw [ScaleLeaf.place_setAllBounds, h.place_eq]

lemma of_edit (h : built.Restorable s) {e : Edit α} (hs : e.apply s = .ok s') :
    built.Restorable s' := by
  obtain ⟨starts, stop?, -, hs⟩ | ⟨size, rfl⟩ | ⟨entries, rfl⟩ | rfl := exists_of_edit hs
  · exact h.of_setStarts hs
  · refine ⟨?_, h.unitCount_eq, h.groups_eq, ScaleLeaf.place_place _ _ _ _ _⟩
    rw [← h.template_eq]
    exact ScaleLeaf.map_place (fun _ _ _ _ => rfl) _ _ _
  · exact ⟨h.1, h.2, (ScaleGroup.restoreTexts_overlay entries s.groups).trans h.3, h.4⟩
  · exact ⟨h.1, h.2, (ScaleGroup.restoreTexts_restoreTexts s.groups).trans h.3, h.4⟩

lemma perform (h : built.Restorable s) (op : Operation α) : built.Restorable (s.perform op).2 := by
  cases op with
  | ask q =>
    obtain ⟨index, hs⟩ := s.ask_snd q
    change built.Restorable (q.ask s).2
    rw [hs]
    exact ⟨h.1, h.2, h.3, h.4⟩
  | edit e =>
    unfold TimeScale.perform
    dsimp only
    split
    · next made hmade => exact h.of_edit hmade
    · exact h

end Restorable

/-- What building a scale makes, and what it would make with another size. -/
lemma exists_of_build {ds : List (ScaleDescriptor α)} {size : α} (h : build ds size = .ok built) :
    ∃ (hne : items ds ≠ []) (stop : Moment),
      ((items ds).getLast hne).defaultStop = some stop ∧
      (∀ p ∈ ScaleLeaf.pairs ((items ds).map (·.defaultStart)) stop, p.1 ≤ p.2) ∧
      ∀ size', ∃ hbounded, build ds size' = .ok (setSize ⟨tree ds,
        ScaleLeaf.setAllBounds (items ds)
          (ScaleLeaf.pairs ((items ds).map (·.defaultStart)) stop),
        Measure.sum ((items ds).map (·.unit)), size', 0, hbounded⟩ size') := by
  have hne : items ds ≠ [] := by
    intro hnil
    have hbuild : build ds size = .error .noScaleItems := dif_pos hnil
    cases hbuild.symm.trans h
  rw [build_eq_bind hne] at h
  obtain ⟨restored, hrestored, -⟩ := Except.bind_eq_ok_iff.1 h
  obtain ⟨stop, hstop, hle, -⟩ := setStarts_eq_ok_iff.1 hrestored
  refine ⟨hne, stop, hstop, hle, fun size' => ?_⟩
  have hbounded := ScaleLeaf.setAllBounds_ne_nil hne
    (ScaleLeaf.pairs ((items ds).map (·.defaultStart)) stop)
  refine ⟨hbounded, ?_⟩
  rw [build_eq_bind hne]
  exact Except.bind_eq_ok_iff.2 ⟨_, setStarts_eq_ok_iff.2 ⟨stop, hstop, hle, hbounded, rfl⟩, rfl⟩

omit [Measure α] in
lemma restoreTexts_tree (ds : List (ScaleDescriptor α)) :
    ScaleGroup.restoreTexts (tree ds) = tree ds :=
  ScaleGroup.restoreTexts_eq_self [] _ fun _ hnode => (isGroupAt_of_mem_nodes hnode).text_eq

lemma restorable_of_build {ds : List (ScaleDescriptor α)} {size : α}
    (h : build ds size = .ok built) : built.Restorable built := by
  obtain ⟨hne, stop, -, -, hbuild⟩ := exists_of_build h
  obtain ⟨hbounded, hbuild⟩ := hbuild size
  cases h.symm.trans hbuild
  exact ⟨rfl, rfl, restoreTexts_tree ds, ScaleLeaf.place_place _ _ _ _ _⟩

/-- Restoring a scale, and then its texts, makes what building it with its size makes. -/
theorem Restorable.exists_restore {ds : List (ScaleDescriptor α)} {size : α}
    (h : build ds size = .ok built) (hs : built.Restorable s) :
    ∃ restored, s.restore = .ok restored ∧ restored.hint = 0 ∧
      build ds s.size = .ok restored.restoreDisplay := by
  obtain ⟨hne, stop, hstop, hle, hbuild⟩ := exists_of_build h
  obtain ⟨hbounded, hbuilt⟩ := hbuild size
  obtain ⟨hbounded', hfresh⟩ := hbuild s.size
  cases h.symm.trans hbuilt
  have htemplate : s.leaves.map ScaleLeaf.template = (items ds).map ScaleLeaf.template := by
    refine hs.template_eq.trans ?_
    change (ScaleLeaf.place _ _ (ScaleLeaf.setAllBounds _ _)).map ScaleLeaf.template = _
    rw [ScaleLeaf.map_place fun _ _ _ _ => rfl, ScaleLeaf.map_setAllBounds fun _ _ _ => rfl]
  generalize hbs : ScaleLeaf.pairs ((items ds).map (·.defaultStart)) stop = bs at *
  have hunitCount : s.unitCount = Measure.sum ((items ds).map (·.unit)) := hs.unitCount_eq
  have hplaced : ScaleLeaf.place (ScaleLeaf.unitSize s.size s.unitCount) Measure.zero
      (ScaleLeaf.setAllBounds (items ds) bs) = ScaleLeaf.setAllBounds s.leaves bs := by
    have hlength : bs.length = (items ds).length := by
      rw [← hbs, ScaleLeaf.length_pairs, List.length_map]
    rw [ScaleLeaf.place_setAllBounds_congr htemplate.symm hlength, ScaleLeaf.place_setAllBounds,
      hs.place_eq]
  have hbounds := ScaleLeaf.setAllBounds_ne_nil s.leaves_ne_nil bs
  refine ⟨⟨s.groups, ScaleLeaf.setAllBounds s.leaves bs, s.unitCount, s.size, 0, hbounds⟩, ?_, rfl,
    ?_⟩
  · rw [restore_eq_setStarts htemplate hne]
    subst hbs
    exact setStarts_eq_ok_iff.2 ⟨stop, hstop, hle, hbounds, rfl⟩
  · rw [hfresh]
    simp only [setSize, restoreDisplay, ← hunitCount, hplaced, hs.groups_eq]

/-- After any run of edits and questions on a built scale, restoring it does not fail, and with the
default texts restored as well it is in every field what building it with its size makes. -/
theorem restore_eq_build {ds : List (ScaleDescriptor α)} {size : α}
    (h : build ds size = .ok built) (ops : List (Operation α)) :
    ∃ restored, (built.run ops).2.restore = .ok restored ∧ restored.hint = 0 ∧
      build ds (built.run ops).2.size = .ok restored.restoreDisplay :=
  (run_induction (restorable_of_build h) (fun _ op hs => hs.perform op) ops).exists_restore h

/-- A scale that was moved, got another text and another size goes back to the template. -/
theorem restore_eq_build_quarters :
    ∃ built, build quarters (Measure.ofInt 100) = .ok built ∧
      ∃ restored, (built.run [.edit (.moveTo (.text "2025-02-01")),
          .edit (.setDisplay [some (.text "winter")]), .ask (.index built.stop),
          .edit (.setSize (Measure.ofInt 50))]).2.restore = .ok restored ∧
        restored.hint = 0 ∧ build quarters (Measure.ofInt 50) = .ok restored.restoreDisplay := by
  obtain ⟨built, h⟩ := exists_build_quarters
  exact ⟨built, h, restore_eq_build h _⟩

end TimeScale

end Timeline
