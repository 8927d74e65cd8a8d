import Mathlib.Data.List.Induction
import Mathlib.Order.Bounds.Basic
import Timeline.Proofs.Scale.Forest
import Timeline.Scale.Descriptor

/-! # Groups of descriptors

There is a group at every path that the descriptors use, siblings stand in the order of their first
use, and a group has the text of the last descriptor that names it. -/
namespace Timeline

variable {α : Type}

namespace ScaleDescriptor

lemma path_ne_nil (d : ScaleDescriptor α) : d.path ≠ [] := by
  simp [path, List.splitOn_ne_nil]

/-- The keys of a path are what stands between the hyphens of its text, empty ones too. -/
structure HasPath (d : ScaleDescriptor α) (p : List String) : Prop where
  ne_nil : p ≠ []
  intercalate_eq : "-".intercalate p = d.pathKey
  hyphen_notMem : ∀ key ∈ p, '-' ∉ key.toList

lemma notMem_of_mem_splitOn {c : Char} {cs piece : List Char} (h : piece ∈ cs.splitOn c) :
    c ∉ piece := by
  induction cs generalizing piece with
  | nil =>
    rw [List.splitOn_nil, List.mem_singleton] at h
    exact h ▸ List.not_mem_nil
  | cons x cs ih =>
    obtain ⟨first, others, hcs⟩ := List.exists_cons_of_ne_nil (List.splitOn_ne_nil c cs)
    rw [List.splitOn_cons_eq_if_modifyHead, hcs] at h
    rw [hcs] at ih
    split_ifs at h with hx
    · rcases List.mem_cons.1 h with rfl | h
      · exact List.not_mem_nil
      · exact ih h
    · rcases List.mem_cons.1 h with rfl | h
      · rw [List.mem_cons, not_or]
        exact ⟨fun heq => hx (by simp [heq]), ih List.mem_cons_self⟩
      · exact ih (List.mem_cons_of_mem _ h)

/-- A text of keys with hyphens between them has one path. -/
theorem hasPath_iff {d : ScaleDescriptor α} {p : List String} : d.HasPath p ↔ d.path = p := by
  constructor
  · rintro ⟨hne, hjoined, hkeys⟩
    have hsplit : d.pathKey.toList.splitOn '-' = p.map String.toList := by
      rw [← hjoined, String.toList_intercalate]
      exact List.splitOn_intercalate '-' (by simpa using hkeys) (by simpa using hne)
    rw [path, hsplit, List.map_map]
    exact List.map_id'' (fun _ => String.ofList_toList) p
  · rintro rfl
    refine ⟨d.path_ne_nil, String.toList_inj.1 ?_, fun key hkey => ?_⟩
    · rw [String.toList_intercalate, path, List.map_map]
      have hpieces : (String.toList ∘ String.ofList) = id := funext fun _ => String.toList_ofList
      rw [hpieces, List.map_id]
      exact List.intercalate_splitOn '-'
    · obtain ⟨piece, hpiece, rfl⟩ := List.mem_map.1 hkey
      rw [String.toList_ofList]
      exact notMem_of_mem_splitOn hpiece

/-- Where the first descriptor stands whose path leads to a group or through it. -/
def firstUse (ds : List (ScaleDescriptor α)) (p : List String) : Nat :=
  ds.findIdx fun d => p.isPrefixOf d.path

/-- Where the descriptors with a path stand. -/
def places (ds : List (ScaleDescriptor α)) (p : List String) : Set Nat :=
  {i | ∃ d, ds[i]? = some d ∧ d.path = p}

/-- A path leads to a leaf if a descriptor has it and no descriptor has a longer one. -/
def IsLeafPath (ds : List (ScaleDescriptor α)) (p : List String) : Prop :=
  (∃ d ∈ ds, d.path = p) ∧ ∀ d ∈ ds, p <+: d.path → d.path = p

/-- The last descriptor with a path, and where it stands. -/
def lastNamed? (ds : List (ScaleDescriptor α)) (p : List String) :
    Option (ScaleDescriptor α × Nat) :=
  (ds.zipIdx.filter fun named => named.1.path == p).getLast?

variable {ds : List (ScaleDescriptor α)} {d : ScaleDescriptor α} {p : List String}

lemma zipIdx_concat : (ds ++ [d]).zipIdx = ds.zipIdx ++ [(d, ds.length)] := by
  simp [List.zipIdx_append]

lemma lastNamed?_concat : lastNamed? (ds ++ [d]) p =
    if d.path = p then some (d, ds.length) else lastNamed? ds p := by
  by_cases h : d.path = p <;> simp [lastNamed?, zipIdx_concat, h]

lemma firstUse_concat_of_exists (h : ∃ d ∈ ds, p <+: d.path) :
    firstUse (ds ++ [d]) p = firstUse ds p ∧ firstUse ds p < ds.length := by
  have hlt : firstUse ds p < ds.length := by
    refine List.findIdx_lt_length_of_exists ?_
    simpa using h
  refine ⟨?_, hlt⟩
  rw [firstUse, List.findIdx_append]
  exact if_pos hlt

lemma firstUse_concat_of_not_exists (h : ¬ ∃ d ∈ ds, p <+: d.path) (hd : p <+: d.path) :
    firstUse (ds ++ [d]) p = ds.length := by
  have hge : ¬ ds.findIdx (fun d => p.isPrefixOf d.path) < ds.length := by
    rw [List.findIdx_lt_length]
    simpa using h
  simp [firstUse, List.findIdx_append, hge, hd]

lemma mem_places_lastNamed? {i : Nat} (h : lastNamed? ds p = some (d, i)) :
    ds[i]? = some d ∧ IsGreatest (places ds p) i := by
  induction ds using List.reverseRecOn with
  | nil => cases h
  | append_singleton ds last ih =>
    rw [lastNamed?_concat] at h
    have hlength {j : Nat} (hj : j ∈ places (ds ++ [last]) p) : j < ds.length + 1 := by
      obtain ⟨e, he, -⟩ := hj
      simpa using (List.getElem?_eq_some_iff.1 he).1
    split_ifs at h with hlast
    · cases h
      exact ⟨by simp, ⟨d, by simp, hlast⟩, fun j hj => Nat.le_of_lt_succ (hlength hj)⟩
    · obtain ⟨hd, ⟨e, he, hpath⟩, hmax⟩ := ih h
      have hi : i < ds.length := (List.getElem?_eq_some_iff.1 hd).1
      rw [List.getElem?_append_left hi]
      refine ⟨hd, ⟨e, by rwa [List.getElem?_append_left hi], hpath⟩, ?_⟩
      rintro j ⟨e', he', hpath'⟩
      rcases Nat.lt_succ_iff_lt_or_eq.1 (hlength ⟨e', he', hpath'⟩) with hj | rfl
      · exact hmax ⟨e', by rwa [List.getElem?_append_left hj] at he', hpath'⟩
      · have heq : last = e' := by simpa using he'
        exact absurd (heq ▸ hpath') hlast

lemma lastNamed?_eq_none_iff : lastNamed? ds p = none ↔ ∀ d ∈ ds, d.path ≠ p := by
  rw [lastNamed?, List.getLast?_eq_none_iff, List.filter_eq_nil_iff]
  constructor
  · intro h d hd
    obtain ⟨i, hi⟩ := List.mem_iff_getElem?.1 hd
    simpa using h (d, i) (List.mem_zipIdx_iff_getElem?.2 hi)
  · intro h named hnamed
    simpa using h _ (List.fst_mem_of_mem_zipIdx hnamed)

end ScaleDescriptor

namespace ScaleGroup
open ScaleDescriptor

variable {ds : List (ScaleDescriptor α)} {d : ScaleDescriptor α} {p : List String}
  {g : ScaleGroup}

lemma ofDescriptors_concat :
    ofDescriptors (ds ++ [d]) = attach ds.length d.label d.path (ofDescriptors ds) := by
  rw [ofDescriptors, ofDescriptors, zipIdx_concat, List.foldl_append]
  rfl

/-- The group of a path before its leaves are numbered. -/
structure Names (ds : List (ScaleDescriptor α)) (p : List String) (g : ScaleGroup) : Prop where
  key : p.getLast? = some g.key
  descriptor : g.descriptor = (lastNamed? ds p).map (·.2)
  defaultText : g.defaultText = (lastNamed? ds p).map (·.1.label.getD "")
  text : g.text = g.defaultText

lemma Names.graft (h : Names ds p g) (hd : p <+: d.path) :
    Names (ds ++ [d]) p (graft ds.length d.label (d.path.drop p.length) g) := by
  obtain ⟨rest, hrest⟩ := hd
  rw [← hrest, List.drop_left]
  cases rest with
  | nil =>
    have hpath : d.path = p := by rw [← hrest, List.append_nil]
    refine ⟨h.key, ?_, ?_, rfl⟩ <;> rw [lastNamed?_concat, if_pos hpath] <;> rfl
  | cons key rest =>
    have hpath : d.path ≠ p := by
      rw [← hrest]
      simp
    refine ⟨h.key, ?_, ?_, h.text⟩ <;> rw [lastNamed?_concat, if_neg hpath]
    · exact h.descriptor
    · exact h.defaultText

/-- There is a group at a path exactly if a descriptor uses the path. -/
theorem at?_ofDescriptors (ds : List (ScaleDescriptor α)) (hp : p ≠ []) :
    (∃ d ∈ ds, p <+: d.path) ∧ (∃ g, at? (ofDescriptors ds) p = some g ∧ Names ds p g) ∨
      (∀ d ∈ ds, ¬ p <+: d.path) ∧ at? (ofDescriptors ds) p = none := by
  induction ds using List.reverseRecOn with
  | nil => exact .inr ⟨by simp, at?_nil_left p⟩
  | append_singleton ds d ih =>
    rw [ofDescriptors_concat, at?_attach hp]
    by_cases hd : p <+: d.path
    · rw [if_pos hd]
      refine .inl ⟨⟨d, by simp, hd⟩, _, rfl, Names.graft ?_ hd⟩
      rcases ih with ⟨-, g, hg, hnames⟩ | ⟨hnone, hat⟩
      · rwa [hg, Option.getD_some]
      · have hlast : lastNamed? ds p = none :=
          lastNamed?_eq_none_iff.2 fun d hd hpath => hnone d hd (hpath ▸ List.prefix_rfl)
        rw [hat, Option.getD_none]
        exact ⟨List.getLast?_eq_some_getLast hp, by rw [hlast]; rfl, by rw [hlast]; rfl, rfl⟩
    · have hpath : d.path ≠ p := fun h => hd (h ▸ List.prefix_rfl)
      rw [if_neg hd]
      rcases ih with ⟨⟨e, he, huses⟩, g, hg, hnames⟩ | ⟨hnone, hat⟩
      · refine .inl ⟨⟨e, by simp [he], huses⟩, g, hg, hnames.key, ?_, ?_, hnames.text⟩ <;>
          rw [lastNamed?_concat, if_neg hpath]
        · exact hnames.descriptor
        · exact hnames.defaultText
      · refine .inr ⟨fun e he => ?_, hat⟩
        rcases List.mem_append.1 he with he | he
        · exact hnone e he
        · rwa [List.mem_singleton.1 he]

/-- Below a path stand the keys with which the descriptors go on, in the order of their first use.
-/
structure InUseOrder (ds : List (ScaleDescriptor α)) (p : List String) (keys : List String) :
    Prop where
  mem_iff : ∀ key, key ∈ keys ↔ ∃ d ∈ ds, p ++ [key] <+: d.path
  ordered : keys.Pairwise fun a b => firstUse ds (p ++ [a]) < firstUse ds (p ++ [b])

lemma InUseOrder.nodup {keys : List String} (h : InUseOrder ds p keys) : keys.Nodup := by
  refine h.ordered.imp ?_
  rintro a b hlt rfl
  exact lt_irrefl _ hlt

lemma InUseOrder.ordered_concat {keys : List String} (h : InUseOrder ds p keys)
    (d : ScaleDescriptor α) : keys.Pairwise fun a b =>
      firstUse (ds ++ [d]) (p ++ [a]) < firstUse (ds ++ [d]) (p ++ [b]) := by
  refine h.ordered.imp_of_mem fun {a b} ha hb hlt => ?_
  rw [(firstUse_concat_of_exists ((h.mem_iff a).1 ha)).1,
    (firstUse_concat_of_exists ((h.mem_iff b).1 hb)).1]
  exact hlt

lemma InUseOrder.concat_of_not {keys : List String} (h : InUseOrder ds p keys)
    (hd : ∀ key ∉ keys, ¬ p ++ [key] <+: d.path) : InUseOrder (ds ++ [d]) p keys := by
  refine ⟨fun key => ?_, h.ordered_concat d⟩
  rw [h.mem_iff]
  simp only [List.mem_append, List.mem_singleton, or_and_right, exists_or, exists_eq_left]
  refine ⟨.inl, ?_⟩
  rintro (hused | hlast)
  · exact hused
  · by_contra hnot
    exact hd key (mt (h.mem_iff key).1 hnot) hlast

lemma InUseOrder.concat {keys : List String} {key : String} (h : InUseOrder ds p keys)
    (hkey : key ∉ keys) (hd : p ++ [key] <+: d.path) :
    InUseOrder (ds ++ [d]) p (keys ++ [key]) := by
  have hunused : ¬ ∃ d ∈ ds, p ++ [key] <+: d.path := mt (h.mem_iff key).2 hkey
  constructor
  · intro key'
    rw [List.mem_append, List.mem_singleton, h.mem_iff]
    simp only [List.mem_append, List.mem_singleton, or_and_right, exists_or, exists_eq_left]
    refine or_congr Iff.rfl ⟨?_, fun hd' => ?_⟩
    · rintro rfl
      exact hd
    · -- both lists are the front of the path, and as long as one another
      have heq := (List.prefix_of_prefix_length_le hd' hd (by simp)).eq_of_length (by simp)
      exact List.singleton_injective (List.append_cancel_left heq)
  · refine List.pairwise_append.2
      ⟨h.ordered_concat d, List.pairwise_singleton _ _, fun a ha b hb => ?_⟩
    obtain ⟨hfirst, hlt⟩ := firstUse_concat_of_exists (d := d) ((h.mem_iff a).1 ha)
    rw [List.mem_singleton.1 hb, hfirst, firstUse_concat_of_not_exists hunused hd]
    exact hlt

theorem keysAt_ofDescriptors (ds : List (ScaleDescriptor α)) (p : List String) :
    InUseOrder ds p (keysAt (ofDescriptors ds) p) := by
  induction ds using List.reverseRecOn with
  | nil =>
    refine ⟨fun key => ?_, ?_⟩ <;> rw [ofDescriptors, List.zipIdx_nil, List.foldl_nil,
      keysAt_nil_left]
    · simp
    · exact .nil
  | append_singleton ds d ih =>
    rw [ofDescriptors_concat]
    by_cases hd : ∃ key, p ++ [key] <+: d.path
    · obtain ⟨key, hkey⟩ := hd
      obtain ⟨rest, hrest⟩ := hkey
      rw [List.append_assoc, List.singleton_append] at hrest
      rw [← hrest, keysAt_attach]
      split_ifs with hmem
      · refine ih.concat_of_not fun key' hkey' huses => ?_
        rw [← hrest] at huses
        have heq : key' = key := by simpa using huses
        exact hkey' (heq ▸ hmem)
      · exact ih.concat hmem (hrest ▸ by simp)
    · rw [keysAt_attach_of_not (not_exists.1 hd)]
      exact ih.concat_of_not fun key _ => not_exists.1 hd key

lemma distinct_ofDescriptors (ds : List (ScaleDescriptor α)) : Distinct (ofDescriptors ds) :=
  fun p => (keysAt_ofDescriptors ds p).nodup

lemma mem_allNodes_ofDescriptors_iff :
    (p, g) ∈ allNodes [] (ofDescriptors ds) ↔ at? (ofDescriptors ds) p = some g := by
  rw [mem_allNodes_iff _ _ (distinct_ofDescriptors ds)]
  constructor
  · rintro ⟨q, rfl, h⟩
    exact h
  · intro h
    exact ⟨p, rfl, h⟩

lemma at?_ofDescriptors_eq_some (h : at? (ofDescriptors ds) p = some g) :
    p ≠ [] ∧ (∃ d ∈ ds, p <+: d.path) ∧ Names ds p g := by
  have hp : p ≠ [] := by
    rintro rfl
    cases h
  refine ⟨hp, ?_⟩
  rcases at?_ofDescriptors ds hp with ⟨hused, g', hg', hnames⟩ | ⟨-, hnone⟩
  · obtain rfl : g' = g := Option.some.inj (hg'.symm.trans h)
    exact ⟨hused, hnames⟩
  · exact nomatch hnone.symm.trans h

/-- A group has none below it exactly if no descriptor goes on from it. -/
lemma children_eq_nil_iff (h : at? (ofDescriptors ds) p = some g) :
    g.children = [] ↔ ∀ d ∈ ds, p <+: d.path → d.path = p := by
  have horder := keysAt_ofDescriptors ds p
  rw [keysAt_of_at? h] at horder
  rw [← List.map_eq_nil_iff (f := ScaleGroup.key), List.eq_nil_iff_forall_not_mem]
  simp only [horder.mem_iff]
  constructor
  · rintro hnone d hd ⟨rest, hrest⟩
    cases rest with
    | nil => rw [← hrest, List.append_nil]
    | cons key rest => exact absurd ⟨d, hd, rest, by simpa using hrest⟩ (hnone key)
  · rintro hleaf key ⟨d, hd, rest, hrest⟩
    have hpath := hleaf d hd ⟨key :: rest, by simpa using hrest⟩
    rw [hpath] at hrest
    simp at hrest

namespace Names

variable {i : Nat}

lemma descriptor_eq_some_iff (h : Names ds p g) :
    g.descriptor = some i ↔ IsGreatest (places ds p) i := by
  rw [h.descriptor]
  constructor
  · intro hi
    obtain ⟨⟨d, j⟩, hlast, rfl⟩ := Option.map_eq_some_iff.1 hi
    exact (mem_places_lastNamed? hlast).2
  · intro hi
    obtain ⟨d, hd, hpath⟩ := hi.1
    cases hlast : lastNamed? ds p with
    | none => exact absurd hpath (lastNamed?_eq_none_iff.1 hlast d (List.mem_of_getElem? hd))
    | some named =>
      have hgreatest := (mem_places_lastNamed? hlast).2
      rw [Option.map_some, hgreatest.unique hi]

lemma descriptor_eq_none_iff (h : Names ds p g) :
    g.descriptor = none ↔ ∀ d ∈ ds, d.path ≠ p := by
  rw [h.descriptor, Option.map_eq_none_iff, lastNamed?_eq_none_iff]

lemma defaultText_eq (h : Names ds p g) :
    g.defaultText = (g.descriptor.bind (ds[·]?)).map (·.label.getD "") := by
  rw [h.defaultText, h.descriptor]
  cases hlast : lastNamed? ds p with
  | none => rfl
  | some named =>
    have hplace := (mem_places_lastNamed? hlast).1
    rw [Option.map_some, Option.map_some, Option.bind_some, hplace, Option.map_some]

lemma exists_leafDescriptor?_iff (h : Names ds p g) (hat : at? (ofDescriptors ds) p = some g) :
    leafDescriptor? g = some i ↔ IsLeafPath ds p ∧ IsGreatest (places ds p) i := by
  rw [leafDescriptor?, ← h.descriptor_eq_some_iff]
  split_ifs with hchildren
  · have hleaf := (children_eq_nil_iff hat).1 (List.isEmpty_iff.1 hchildren)
    refine ⟨fun hi => ⟨⟨?_, hleaf⟩, hi⟩, And.right⟩
    obtain ⟨d, hd, hpath⟩ := (h.descriptor_eq_some_iff.1 hi).1
    exact ⟨d, List.mem_of_getElem? hd, hpath⟩
  · refine ⟨nofun, fun hleaf => absurd ?_ hchildren⟩
    exact List.isEmpty_iff.2 ((children_eq_nil_iff hat).2 hleaf.1.2)

end Names

end ScaleGroup

end Timeline
