import Timeline.Proofs.Scale.Independence

/-! # Display texts

Overlays are shown one after another. A group shows the text of the last overlay that reaches it
with one, or the text from before; nothing else of it changes. The default texts come back whatever
was shown in between. -/
namespace Timeline

namespace ScaleGroup

/-- The group at a path of positions, from the top level down. -/
def nodeAt? (level : List ScaleGroup) : List Nat → Option ScaleGroup
  | [] => none
  | [i] => level[i]?
  | i :: path => level[i]?.bind fun g => nodeAt? g.children path

lemma nodeAt?_cons {path : List Nat} (hpath : path ≠ []) (level : List ScaleGroup) (i : Nat) :
    nodeAt? level (i :: path) = level[i]?.bind fun g => nodeAt? g.children path := by
  cases path with
  | nil => exact absurd rfl hpath
  | cons j path => rfl

end ScaleGroup

namespace DisplayEntry
open ScaleGroup

/-- The text that an entry gives to the group at its position. -/
def ownText? : DisplayEntry → Option String
  | text s => some s
  | group s _ => s

/-- The entries for the groups below. A bare text has none. -/
def subEntries : DisplayEntry → List (Option DisplayEntry)
  | text _ => []
  | group _ entries => entries

lemma applyTo_eq (entry : DisplayEntry) (g : ScaleGroup) :
    entry.applyTo g = { g with
      text := entry.ownText?.or g.text, children := overlay entry.subEntries g.children } := by
  cases entry with
  | text s => simp only [applyTo, ownText?, subEntries, overlay, Option.some_or]
  | group s entries => rfl

/-- The entry at a position. Where there is none, nothing is changed. -/
def entryAt (entries : List (Option DisplayEntry)) (i : Nat) : DisplayEntry :=
  entries[i]?.join.getD (group none [])

lemma applyTo_group_none_nil (g : ScaleGroup) : (group none []).applyTo g = g := by
  cases g
  simp only [applyTo, overlay, Option.none_or]

lemma getElem?_overlay (entries : List (Option DisplayEntry)) (level : List ScaleGroup) (i : Nat) :
    (overlay entries level)[i]? = level[i]?.map (entryAt entries i).applyTo := by
  induction entries generalizing level i with
  | nil =>
    have hentry : (entryAt [] i).applyTo = id := funext applyTo_group_none_nil
    rw [overlay, hentry, Option.map_id_fun, id]
  | cons entry entries ih =>
    cases level with
    | nil => rfl
    | cons g level =>
      cases i with
      | zero =>
        cases entry with
        | none => exact congrArg some (applyTo_group_none_nil g).symm
        | some entry => rfl
      | succ i =>
        cases entry with
        | none => exact ih level i
        | some entry => exact ih level i

/-- The text that an overlay gives to the group at a path. -/
def textAt? (entries : List (Option DisplayEntry)) : List Nat → Option String
  | [] => none
  | [i] => (entryAt entries i).ownText?
  | i :: path => textAt? (entryAt entries i).subEntries path

/-- An overlay reaches the group at a path with a text: the entries above it have entries below
them, and its own entry is a bare text or has a text. -/
inductive Gives : List (Option DisplayEntry) → List Nat → String → Prop
  | text {entries i s} (hentry : entries[i]? = some (some (.text s))) : Gives entries [i] s
  | group {entries i s sub} (hentry : entries[i]? = some (some (.group (some s) sub))) :
    Gives entries [i] s
  | sub {entries i own sub path s} (hentry : entries[i]? = some (some (.group own sub)))
    (hsub : Gives sub path s) : Gives entries (i :: path) s

variable {entries : List (Option DisplayEntry)} {path : List Nat} {s : String} {i : Nat}

lemma not_gives_nil : ¬Gives [] path s := by
  intro h
  cases h with
  | text hentry => cases hentry
  | group hentry => cases hentry
  | sub hentry => cases hentry

lemma entryAt_of_getElem? {entry : DisplayEntry} (h : entries[i]? = some (some entry)) :
    entryAt entries i = entry := by
  rw [entryAt, h, Option.join_some, Option.getD_some]

lemma entryAt_cases (entries : List (Option DisplayEntry)) (i : Nat) :
    entryAt entries i = group none [] ∨ entries[i]? = some (some (entryAt entries i)) := by
  rw [entryAt]
  match entries[i]? with
  | none => exact .inl rfl
  | some none => exact .inl rfl
  | some (some entry) => exact .inr rfl

lemma gives_singleton_iff : Gives entries [i] s ↔ (entryAt entries i).ownText? = some s := by
  constructor
  · intro h
    cases h with
    | text hentry => rw [entryAt_of_getElem? hentry, ownText?]
    | group hentry => rw [entryAt_of_getElem? hentry, ownText?]
    | sub _ hsub => cases hsub
  · intro h
    rcases entryAt_cases entries i with hnone | hentry
    · rw [hnone] at h
      cases h
    · cases hat : entryAt entries i with
      | text own =>
        rw [hat] at h hentry
        cases h
        exact .text hentry
      | group own sub =>
        rw [hat] at h hentry
        cases h
        exact .group hentry

lemma gives_cons_iff (hpath : path ≠ []) :
    Gives entries (i :: path) s ↔ Gives (entryAt entries i).subEntries path s := by
  constructor
  · intro h
    cases h with
    | text => exact absurd rfl hpath
    | group => exact absurd rfl hpath
    | sub hentry hsub => rwa [entryAt_of_getElem? hentry]
  · intro h
    rcases entryAt_cases entries i with hnone | hentry
    · rw [hnone] at h
      exact absurd h not_gives_nil
    · cases hat : entryAt entries i with
      | text own =>
        rw [hat] at h
        exact absurd h not_gives_nil
      | group own sub =>
        rw [hat] at h hentry
        exact .sub hentry h

lemma textAt?_eq_some_iff : textAt? entries path = some s ↔ Gives entries path s := by
  fun_induction textAt? entries path with
  | case1 => exact iff_of_false nofun nofun
  | case2 entries i => exact gives_singleton_iff.symm
  | case3 entries i path hpath ih => rw [ih, gives_cons_iff hpath]

lemma textAt?_eq_none_iff : textAt? entries path = none ↔ ∀ s, ¬Gives entries path s := by
  rw [Option.eq_none_iff_forall_ne_some]
  exact forall_congr' fun s => not_congr textAt?_eq_some_iff

mutual

theorem applyTo_applyTo (entry : DisplayEntry) (g : ScaleGroup) :
    entry.applyTo (entry.applyTo g) = entry.applyTo g := by
  cases entry with
  | text own => rfl
  | group own entries =>
    have htext : own.or (own.or g.text) = own.or g.text := by cases own <;> rfl
    simp only [applyTo, htext, overlay_overlay entries g.children]

/-- To show an overlay a second time changes nothing. -/
theorem overlay_overlay (entries : List (Option DisplayEntry)) (level : List ScaleGroup) :
    overlay entries (overlay entries level) = overlay entries level := by
  match entries, level with
  | [], level => simp only [overlay]
  | _ :: _, [] => simp only [overlay]
  | none :: entries, g :: level => simp only [overlay, overlay_overlay entries level]
  | some entry :: entries, g :: level =>
    simp only [overlay, applyTo_applyTo entry g, overlay_overlay entries level]

end

lemma withoutText_applyTo (entry : DisplayEntry) (g : ScaleGroup) :
    withoutText (entry.applyTo g) = withoutText g := by
  rw [← withoutText_restoreText, restoreText_applyTo, withoutText_restoreText]

/-- What an overlay makes of the group at a path. -/
lemma exists_nodeAt?_overlay (entries : List (Option DisplayEntry)) {level : List ScaleGroup}
    {g : ScaleGroup} (h : nodeAt? level path = some g) :
    ∃ g', nodeAt? (overlay entries level) path = some g' ∧ withoutText g' = withoutText g ∧
      g'.text = (textAt? entries path).or g.text := by
  fun_induction textAt? entries path generalizing level with
  | case1 => cases h
  | case2 entries i =>
    refine ⟨(entryAt entries i).applyTo g, ?_, withoutText_applyTo _ g, ?_⟩
    · rw [nodeAt?] at h ⊢
      rw [getElem?_overlay, h, Option.map_some]
    · rw [applyTo_eq]
  | case3 entries i path hpath ih =>
    rw [nodeAt?_cons hpath, Option.bind_eq_some_iff] at h
    obtain ⟨above, habove, hbelow⟩ := h
    obtain ⟨g', hg', hsame, htext⟩ := ih hbelow
    refine ⟨g', ?_, hsame, htext⟩
    rw [nodeAt?_cons hpath, getElem?_overlay, habove, Option.map_some, Option.bind_some, applyTo_eq]
    exact hg'

/-- Shows overlays one after another. -/
def overlayAll (overlays : List (List (Option DisplayEntry))) (level : List ScaleGroup) :
    List ScaleGroup :=
  overlays.foldl (fun level entries => overlay entries level) level

variable {overlays : List (List (Option DisplayEntry))}

/-- The text at a path after some overlays: the one of the last overlay that gives one there, or
the one from before. -/
inductive ShownText (overlays : List (List (Option DisplayEntry))) (path : List Nat)
    (before : Option String) : Option String → Prop
  | last (earlier later : List (List (Option DisplayEntry))) {entries s}
    (hoverlays : overlays = earlier ++ entries :: later) (hgives : Gives entries path s)
    (hlater : ∀ entries ∈ later, ∀ t, ¬Gives entries path t) :
    ShownText overlays path before (some s)
  | kept (hnone : ∀ entries ∈ overlays, ∀ t, ¬Gives entries path t) :
    ShownText overlays path before before

lemma ShownText.cons {before after : Option String}
    (h : ShownText overlays path ((textAt? entries path).or before) after) :
    ShownText (entries :: overlays) path before after := by
  cases h with
  | last earlier later hoverlays hgives hlater =>
    exact .last (entries :: earlier) later (congrArg (entries :: ·) hoverlays) hgives hlater
  | kept hnone =>
    cases htext : textAt? entries path with
    | none => exact .kept (List.forall_mem_cons.2 ⟨textAt?_eq_none_iff.1 htext, hnone⟩)
    | some s => exact .last [] overlays rfl ((textAt?_eq_some_iff.1 htext)) hnone

/-- What overlays that are shown one after another make of the group at a path. -/
lemma exists_nodeAt?_overlayAll {level : List ScaleGroup} {g : ScaleGroup}
    (h : nodeAt? level path = some g) :
    ∃ g', nodeAt? (overlayAll overlays level) path = some g' ∧ withoutText g' = withoutText g ∧
      ShownText overlays path g.text g'.text := by
  induction overlays generalizing level g with
  | nil => exact ⟨g, h, rfl, .kept (List.forall_mem_nil _)⟩
  | cons entries overlays ih =>
    obtain ⟨first, hfirst, hsame, htext⟩ := exists_nodeAt?_overlay entries h
    obtain ⟨g', hg', hsame', hshown⟩ := ih hfirst
    rw [htext] at hshown
    exact ⟨g', hg', hsame'.trans hsame, hshown.cons⟩

lemma withoutTexts_overlayAll (level : List ScaleGroup) :
    withoutTexts (overlayAll overlays level) = withoutTexts level := by
  induction overlays generalizing level with
  | nil => rfl
  | cons entries overlays ih => exact (ih _).trans (withoutTexts_overlay entries level)

lemma restoreTexts_overlayAll (level : List ScaleGroup) :
    restoreTexts (overlayAll overlays level) = restoreTexts level := by
  induction overlays generalizing level with
  | nil => rfl
  | cons entries overlays ih => exact (ih _).trans (restoreTexts_overlay entries level)

end DisplayEntry

namespace ScaleGroup

lemma getElem?_restoreTexts (level : List ScaleGroup) (i : Nat) :
    (restoreTexts level)[i]? = level[i]?.map restoreText := by
  induction level generalizing i with
  | nil => rfl
  | cons g level ih =>
    cases i with
    | zero => rfl
    | succ i => exact ih i

lemma restoreText_eq (g : ScaleGroup) :
    restoreText g = { g with text := g.defaultText, children := restoreTexts g.children } := by
  cases g
  rfl

/-- Restoring the texts reaches the groups at every depth. -/
lemma nodeAt?_restoreTexts (level : List ScaleGroup) (path : List Nat) :
    nodeAt? (restoreTexts level) path = (nodeAt? level path).map restoreText := by
  fun_induction nodeAt? level path with
  | case1 => rfl
  | case2 level i => exact getElem?_restoreTexts level i
  | case3 level i path hpath ih =>
    rw [nodeAt?_cons hpath, getElem?_restoreTexts]
    cases level[i]? with
    | none => rfl
    | some g =>
      rw [Option.map_some, Option.bind_some, Option.bind_some, restoreText_eq]
      exact ih g

end ScaleGroup

namespace TimeScale
open DisplayEntry ScaleGroup

variable {α : Type}

lemma foldl_setDisplay (s : TimeScale α) (overlays : List (List (Option DisplayEntry))) :
    overlays.foldl setDisplay s = { s with groups := overlayAll overlays s.groups } := by
  induction overlays generalizing s with
  | nil => rfl
  | cons entries overlays ih => exact ih (s.setDisplay entries)

/-- A group shows the text of the last overlay that gives it one, and nothing else changes; an
overlay that is shown twice is shown once. Restoring gives the default texts to all groups, so that
a scale is as it was built. -/
theorem setDisplay_run (α : Type) [Measure α] (level : List ScaleGroup)
    (overlays : List (List (Option DisplayEntry))) :
    (∀ path g, nodeAt? level path = some g →
      ∃ g', nodeAt? (overlayAll overlays level) path = some g' ∧
        withoutText g' = withoutText g ∧ ShownText overlays path g.text g'.text) ∧
    withoutTexts (overlayAll overlays level) = withoutTexts level ∧
    (∀ entries, overlay entries (overlay entries level) = overlay entries level) ∧
    (∀ path g, nodeAt? level path = some g →
      ∃ g', nodeAt? (restoreTexts (overlayAll overlays level)) path = some g' ∧
        withoutText g' = withoutText g ∧ g'.text = g.defaultText) ∧
    ∀ (ds : List (ScaleDescriptor α)) (size : α) (built : TimeScale α), build ds size = .ok built →
      (overlays.foldl setDisplay built).groups = overlayAll overlays built.groups ∧
        (overlays.foldl setDisplay built).restoreDisplay = built := by
  refine ⟨fun path g h => exists_nodeAt?_overlayAll h, withoutTexts_overlayAll level,
    fun entries => overlay_overlay entries level, fun path g h => ?_, fun ds size built h => ?_⟩
  · refine ⟨restoreText g, ?_, withoutText_restoreText g, ?_⟩
    · rw [restoreTexts_overlayAll, nodeAt?_restoreTexts, h, Option.map_some]
    · rw [restoreText_eq]
  · have hrestored : restoreTexts (overlayAll overlays built.groups) = built.groups := by
      rw [restoreTexts_overlayAll]
      exact (restorable_of_build h).groups_eq
    rw [foldl_setDisplay]
    refine ⟨rfl, ?_⟩
    simp only [restoreDisplay, hrestored]

/-- A month and its year get texts, and its year another one after that. -/
theorem setDisplay_run_year :
    let month := ScaleGroup.new "01"
    let year := { ScaleGroup.new "2025" with children := [month] }
    let overlays := [[some (.group (some "FY") [some (.text "Jan")])], [some (.text "FY25")]]
    (∃ g', nodeAt? (overlayAll overlays [year]) [0] = some g' ∧
      withoutText g' = withoutText year ∧ ShownText overlays [0] year.text g'.text ∧
      g'.text = some "FY25") ∧
    (∃ g', nodeAt? (overlayAll overlays [year]) [0, 0] = some g' ∧
      withoutText g' = withoutText month ∧ ShownText overlays [0, 0] month.text g'.text ∧
      g'.text = some "Jan") ∧
    ∃ built, build quarters (Measure.ofInt 100) = .ok built ∧
      (overlays.foldl setDisplay built).restoreDisplay = built := by
  intro month year overlays
  obtain ⟨built, h⟩ := exists_build_quarters
  obtain ⟨hshown, -, -, -, hbuilt⟩ := setDisplay_run Float [year] overlays
  obtain ⟨g, hg, hyear⟩ := hshown [0] year rfl
  obtain ⟨g', hg', hmonth⟩ := hshown [0, 0] month rfl
  refine ⟨⟨g, hg, hyear.1, hyear.2, ?_⟩, ⟨g', hg', hmonth.1, hmonth.2, ?_⟩, built, h,
    (hbuilt quarters _ built h).2⟩
  · cases hg
    rfl
  · cases hg'
    rfl

end TimeScale

end Timeline
