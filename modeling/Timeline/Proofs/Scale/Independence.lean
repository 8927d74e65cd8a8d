import Timeline.Proofs.Scale.Restoration

/-! # Independent edits

There are edits of the times of a scale, of its layout and of its texts. Each kind reads and writes
fields that the others leave alone. So two edits of different kinds can change places: they succeed
or fail as before, and they leave the same scale. -/
namespace Timeline

namespace ScaleGroup

mutual

/-- A group without the texts that are shown for it and for those below it. -/
def withoutText : ScaleGroup → ScaleGroup
  | ⟨key, defaultText, _, descriptor, leaf, children⟩ =>
    ⟨key, defaultText, none, descriptor, leaf, withoutTexts children⟩

def withoutTexts : List ScaleGroup → List ScaleGroup
  | [] => []
  | g :: level => withoutText g :: withoutTexts level

end

mutual

theorem withoutText_restoreText (g : ScaleGroup) : withoutText (restoreText g) = withoutText g := by
  cases g with
  | mk key defaultText text descriptor leaf children =>
    simp only [restoreText, withoutText, withoutTexts_restoreTexts children]

theorem withoutTexts_restoreTexts (level : List ScaleGroup) :
    withoutTexts (restoreTexts level) = withoutTexts level := by
  cases level with
  | nil => rfl
  | cons g level =>
    simp only [restoreTexts, withoutTexts, withoutText_restoreText g,
      withoutTexts_restoreTexts level]

end

/-- An overlay changes texts only, since the default texts take back all that it changes. -/
theorem withoutTexts_overlay (entries : List (Option DisplayEntry)) (level : List ScaleGroup) :
    withoutTexts (DisplayEntry.overlay entries level) = withoutTexts level := by
  rw [← withoutTexts_restoreTexts, restoreTexts_overlay, withoutTexts_restoreTexts]

end ScaleGroup

namespace ScaleLeaf

variable {α : Type}

/-- A leaf before and after a change of its times. -/
def SameButTimes (leaf leaf' : ScaleLeaf α) : Prop :=
  leaf' = { leaf with start := leaf'.start, stop := leaf'.stop, length := leaf'.length }

/-- A leaf before and after a change of its layout. -/
def SameButLayout (leaf leaf' : ScaleLeaf α) : Prop :=
  leaf' = { leaf with
    layoutStart := leaf'.layoutStart, layoutSize := leaf'.layoutSize, layoutEnd := leaf'.layoutEnd }

lemma sameButTimes_setAllBounds (leaves : List (ScaleLeaf α)) (bs : List (Moment × Moment)) :
    List.Forall₂ SameButTimes leaves (setAllBounds leaves bs) := by
  fun_induction setAllBounds leaves bs with
  | case1 leaf leaves start stop rest ih => exact .cons rfl ih
  | case2 => exact List.forall₂_same.2 fun _ _ => rfl

lemma sameButLayout_place [Measure α] (unitSize offset : α) (leaves : List (ScaleLeaf α)) :
    List.Forall₂ SameButLayout leaves (place unitSize offset leaves) := by
  induction leaves generalizing offset with
  | nil => exact .nil
  | cons leaf leaves ih => exact .cons rfl (ih _)

end ScaleLeaf

namespace TimeScale

variable {α : Type} {s s' : TimeScale α}

/-- Two scales that differ in the times of the leaves and in where the next search starts. -/
structure SameButTimes (s s' : TimeScale α) : Prop where
  groups_eq : s'.groups = s.groups
  leaves : List.Forall₂ ScaleLeaf.SameButTimes s.leaves s'.leaves
  unitCount_eq : s'.unitCount = s.unitCount
  size_eq : s'.size = s.size

/-- Two scales that differ in their size and in the layout of the leaves. -/
structure SameButLayout (s s' : TimeScale α) : Prop where
  groups_eq : s'.groups = s.groups
  leaves : List.Forall₂ ScaleLeaf.SameButLayout s.leaves s'.leaves
  unitCount_eq : s'.unitCount = s.unitCount
  hint_eq : s'.hint = s.hint

/-- Two scales that differ in the texts of their groups. -/
structure SameButTexts (s s' : TimeScale α) : Prop where
  groups_eq : ScaleGroup.withoutTexts s'.groups = ScaleGroup.withoutTexts s.groups
  leaves_eq : s'.leaves = s.leaves
  unitCount_eq : s'.unitCount = s.unitCount
  size_eq : s'.size = s.size
  hint_eq : s'.hint = s.hint

/-- What no edit changes: the groups but for their texts, and what the template says of the leaves. -/
structure SameTemplate (s s' : TimeScale α) : Prop where
  groups_eq : ScaleGroup.withoutTexts s'.groups = ScaleGroup.withoutTexts s.groups
  template_eq : s'.leaves.map ScaleLeaf.template = s.leaves.map ScaleLeaf.template
  unitCount_eq : s'.unitCount = s.unitCount

end TimeScale

/-- What an edit of a kind leaves as it was. -/
def EditKind.Frame {α : Type} : EditKind → TimeScale α → TimeScale α → Prop
  | times => TimeScale.SameButTimes
  | layout => TimeScale.SameButLayout
  | texts => TimeScale.SameButTexts

namespace EditKind.Frame

variable {α : Type} {s s' : TimeScale α}

lemma refl (kind : EditKind) (s : TimeScale α) : kind.Frame s s := by
  cases kind with
  | times => exact ⟨rfl, List.forall₂_same.2 fun _ _ => rfl, rfl, rfl⟩
  | layout => exact ⟨rfl, List.forall₂_same.2 fun _ _ => rfl, rfl, rfl⟩
  | texts => exact ⟨rfl, rfl, rfl, rfl, rfl⟩

lemma map_template_eq {leaves leaves' : List (ScaleLeaf α)}
    {R : ScaleLeaf α → ScaleLeaf α → Prop} (h : List.Forall₂ R leaves leaves')
    (hR : ∀ leaf leaf', R leaf leaf' → leaf'.template = leaf.template) :
    leaves'.map ScaleLeaf.template = leaves.map ScaleLeaf.template := by
  induction h with
  | nil => rfl
  | cons hleaf _ ih => rw [List.map_cons, List.map_cons, hR _ _ hleaf, ih]

lemma sameTemplate {kind : EditKind} (h : kind.Frame s s') : s.SameTemplate s' := by
  cases kind with
  | times =>
    obtain ⟨hgroups, hleaves, hunitCount, -⟩ := h
    refine ⟨congrArg _ hgroups, map_template_eq hleaves fun leaf leaf' hleaf => ?_, hunitCount⟩
    rw [hleaf]
    rfl
  | layout =>
    obtain ⟨hgroups, hleaves, hunitCount, -⟩ := h
    refine ⟨congrArg _ hgroups, map_template_eq hleaves fun leaf leaf' hleaf => ?_, hunitCount⟩
    rw [hleaf]
    rfl
  | texts =>
    obtain ⟨hgroups, hleaves, hunitCount, -⟩ := h
    exact ⟨hgroups, congrArg _ hleaves, hunitCount⟩

end EditKind.Frame

namespace TimeScale

variable {α : Type} {s s' : TimeScale α}

/-- A change of a scale that edits of its times do not see and do not touch. -/
structure ApartFromTimes (change : TimeScale α → TimeScale α) : Prop where
  starts_eq : ∀ s, (change s).leaves.map (·.start) = s.leaves.map (·.start)
  stops_eq : ∀ s, (change s).leaves.map (·.stop) = s.leaves.map (·.stop)
  template_eq : ∀ s, (change s).leaves.map ScaleLeaf.template = s.leaves.map ScaleLeaf.template
  setStarts_eq : ∀ s starts stop?, (change s).setStarts starts stop? =
    change <$> s.setStarts starts stop?

lemma apartFromTimes_groups (change : List ScaleGroup → List ScaleGroup) :
    ApartFromTimes fun s : TimeScale α => { s with groups := change s.groups } where
  starts_eq _ := rfl
  stops_eq _ := rfl
  template_eq _ := rfl
  setStarts_eq s starts stop? := by
    cases stop? with
    | none => rfl
    | some stop =>
      unfold setStarts
      dsimp only
      cases ScaleLeaf.bounds 0 starts stop <;> rfl

variable [Measure α]

lemma apartFromTimes_setSize (size : α) : ApartFromTimes fun s : TimeScale α => s.setSize size where
  starts_eq s := ScaleLeaf.map_place (fun _ _ _ _ => rfl) _ _ _
  stops_eq s := ScaleLeaf.map_place (fun _ _ _ _ => rfl) _ _ _
  template_eq s := ScaleLeaf.map_place (fun _ _ _ _ => rfl) _ _ _
  setStarts_eq s starts stop? := by
    cases stop? with
    | none => rfl
    | some stop =>
      unfold setStarts
      dsimp only
      cases ScaleLeaf.bounds 0 starts stop with
      | error cause => rfl
      | ok bs =>
        refine congrArg Except.ok ?_
        simp only [setSize, ScaleLeaf.place_setAllBounds]

namespace ApartFromTimes

variable {change : TimeScale α → TimeScale α}

omit [Measure α] in
lemma start_eq (h : ApartFromTimes change) (s : TimeScale α) : (change s).start = s.start := by
  have hhead (s : TimeScale α) : (s.leaves.map (·.start)).head? = some s.start := by
    rw [List.head?_map, List.head?_eq_some_head s.leaves_ne_nil]
    rfl
  rw [← Option.some.injEq, ← hhead, ← hhead, h.starts_eq]

omit [Measure α] in
lemma stop_eq (h : ApartFromTimes change) (s : TimeScale α) : (change s).stop = s.stop := by
  have hlast (s : TimeScale α) : (s.leaves.map (·.stop)).getLast? = some s.stop := by
    rw [List.getLast?_map, List.getLast?_eq_some_getLast s.leaves_ne_nil]
    rfl
  rw [← Option.some.injEq, ← hlast, ← hlast, h.stops_eq]

omit [Measure α] in
lemma moveTo_eq (h : ApartFromTimes change) (s : TimeScale α) (v : TimeValue) :
    (change s).moveTo v = change <$> s.moveTo v := by
  simp only [moveTo, h.start_eq, h.starts_eq, h.stop_eq, h.setStarts_eq, map_bind]

/-- An edit of the times makes of the changed scale what it makes of the other, with the change. -/
theorem apply_eq (h : ApartFromTimes change) {e : Edit α} (he : e.kind = .times)
    (s : TimeScale α) : e.apply (change s) = change <$> e.apply s := by
  cases e with
  | setTimes values =>
    simp only [Edit.apply, setTimes, h.starts_eq, h.stop_eq, h.setStarts_eq, map_bind]
  | moveTo v => exact h.moveTo_eq s v
  | setPrimeDate v map =>
    cases map with
    | none => exact h.moveTo_eq s v
    | some map => simp only [Edit.apply, setPrimeDate, h.moveTo_eq, map_bind]
  | restore =>
    -- restoring reads the template, which the change keeps
    change (change s).restore = _
    rw [restore_eq_setStarts (h.template_eq s) s.leaves_ne_nil, h.setStarts_eq]
    rfl
  | setSize | setDisplay | restoreDisplay => cases he

end ApartFromTimes

end TimeScale

namespace Edit

variable {α : Type} [Measure α] {e e₁ e₂ : Edit α} {s : TimeScale α}

/-- An edit of the layout or of the texts does not fail, and it does not meet the times. -/
lemma exists_change (he : e.kind ≠ .times) :
    ∃ change, (∀ s, e.apply s = .ok (change s)) ∧ TimeScale.ApartFromTimes change := by
  cases e with
  | setTimes | moveTo | setPrimeDate | restore => exact absurd rfl he
  | setSize size => exact ⟨_, fun _ => rfl, TimeScale.apartFromTimes_setSize size⟩
  | setDisplay entries => exact ⟨_, fun _ => rfl, TimeScale.apartFromTimes_groups _⟩
  | restoreDisplay => exact ⟨_, fun _ => rfl, TimeScale.apartFromTimes_groups _⟩

/-- In either order two edits of a scale get the same replies and leave the same scale. -/
def Swap (e₁ e₂ : Edit α) (s : TimeScale α) : Prop :=
  ∃ reply₁ reply₂ left,
    s.run [.edit e₁, .edit e₂] = ([reply₁, reply₂], left) ∧
    s.run [.edit e₂, .edit e₁] = ([reply₂, reply₁], left)

lemma Swap.symm : Swap e₁ e₂ s → Swap e₂ e₁ s := by
  rintro ⟨reply₁, reply₂, left, h, h'⟩
  exact ⟨reply₂, reply₁, left, h', h⟩

/-- An edit that always succeeds changes places with one that does not see what it does. -/
lemma swap_of_apply_eq {change : TimeScale α → TimeScale α} (hok : ∀ s, e₂.apply s = .ok (change s))
    (happly : e₁.apply (change s) = change <$> e₁.apply s) : Swap e₁ e₂ s := by
  cases h : e₁.apply s with
  | ok s' =>
    rw [h] at happly
    refine ⟨.done, .done, change s', ?_, ?_⟩ <;>
      simp only [TimeScale.run, TimeScale.perform, h, hok, happly, Except.map_ok]
  | error cause =>
    rw [h] at happly
    refine ⟨.failed cause, .done, change s, ?_, ?_⟩ <;>
      simp only [TimeScale.run, TimeScale.perform, h, hok, happly, Except.map_error]

lemma swap_of_times (he₁ : e₁.kind = .times) (he₂ : e₂.kind ≠ .times) : Swap e₁ e₂ s := by
  obtain ⟨change, hok, happart⟩ := exists_change he₂
  exact swap_of_apply_eq hok (happart.apply_eq he₁ s)

lemma swap_of_layout (he₁ : e₁.kind = .layout) (he₂ : e₂.kind = .texts) : Swap e₁ e₂ s := by
  cases e₁ with
  | setTimes | moveTo | setPrimeDate | restore | setDisplay | restoreDisplay => cases he₁
  | setSize size =>
    cases e₂ with
    | setTimes | moveTo | setPrimeDate | restore | setSize => cases he₂
    | setDisplay | restoreDisplay => exact ⟨_, _, _, rfl, rfl⟩

theorem swap_of_kind_ne (h : e₁.kind ≠ e₂.kind) : Swap e₁ e₂ s := by
  cases he₁ : e₁.kind with
  | times => exact swap_of_times he₁ fun he₂ => h (he₁.trans he₂.symm)
  | layout =>
    cases he₂ : e₂.kind with
    | times => exact (swap_of_times he₂ (by simp [he₁])).symm
    | layout => exact absurd (he₁.trans he₂.symm) h
    | texts => exact swap_of_layout he₁ he₂
  | texts =>
    cases he₂ : e₂.kind with
    | times => exact (swap_of_times he₂ (by simp [he₁])).symm
    | layout => exact (swap_of_layout he₂ he₁).symm
    | texts => exact absurd (he₁.trans he₂.symm) h

/-- An edit leaves alone what it is not about. -/
lemma frame_of_apply {s' : TimeScale α} (h : e.apply s = .ok s') : e.kind.Frame s s' := by
  cases e with
  | setTimes | moveTo | setPrimeDate | restore =>
    obtain ⟨starts, stop?, -, hs⟩ := TimeScale.exists_setStarts_of_edit rfl h
    obtain ⟨stop, -, -, hne, rfl⟩ := TimeScale.setStarts_eq_ok_iff.1 hs
    exact ⟨rfl, ScaleLeaf.sameButTimes_setAllBounds _ _, rfl, rfl⟩
  | setSize size =>
    cases h
    exact ⟨rfl, ScaleLeaf.sameButLayout_place _ _ _, rfl, rfl⟩
  | setDisplay entries =>
    cases h
    exact ⟨ScaleGroup.withoutTexts_overlay _ _, rfl, rfl, rfl, rfl⟩
  | restoreDisplay =>
    cases h
    exact ⟨ScaleGroup.withoutTexts_restoreTexts _, rfl, rfl, rfl, rfl⟩

lemma frame_perform (e : Edit α) (s : TimeScale α) :
    e.kind.Frame s (s.perform (.edit e)).2 := by
  unfold TimeScale.perform
  dsimp only
  split
  · next s' h => exact frame_of_apply h
  · exact .refl e.kind s

end Edit

namespace TimeScale

variable {α : Type} [Measure α]

lemma sameTemplate_perform {s t : TimeScale α} (op : Operation α) (h : s.SameTemplate t) :
    s.SameTemplate (t.perform op).2 := by
  cases op with
  | edit e =>
    have hedit := (e.frame_perform t).sameTemplate
    exact ⟨hedit.groups_eq.trans h.groups_eq, hedit.template_eq.trans h.template_eq,
      hedit.unitCount_eq.trans h.unitCount_eq⟩
  | ask q =>
    obtain ⟨index, hs⟩ := t.ask_snd q
    change s.SameTemplate (q.ask t).2
    rw [hs]
    exact ⟨h.groups_eq, h.template_eq, h.unitCount_eq⟩

/-- Edits of different kinds change places, whether they succeed or fail. Each changes only what it
is about, and no run changes what the scale was built from. -/
theorem edits_independent (s : TimeScale α) :
    (∀ e₁ e₂ : Edit α, e₁.kind ≠ e₂.kind → Edit.Swap e₁ e₂ s) ∧
      (∀ e : Edit α, e.kind.Frame s (s.perform (.edit e)).2) ∧
      ∀ ops, s.SameTemplate (s.run ops).2 :=
  ⟨fun _ _ h => Edit.swap_of_kind_ne h, fun e => e.frame_perform s,
    run_induction ⟨rfl, rfl, rfl⟩ fun _ op h => sameTemplate_perform op h⟩

/-- Starts that decrease are refused before and after the scale gets another size. -/
theorem edits_independent_quarters :
    ∃ built, build quarters (Measure.ofInt 100) = .ok built ∧
      EditKind.times ≠ EditKind.layout ∧
      Edit.Swap (.setTimes [.text "2026-01-01", .text "2025-01-01"]) (.setSize (Measure.ofInt 50))
        built := by
  obtain ⟨built, h⟩ := exists_build_quarters
  exact ⟨built, h, by decide, (edits_independent built).1 _ _ (by decide)⟩

end TimeScale

end Timeline
