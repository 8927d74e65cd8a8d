import Mathlib.Data.List.MinMax
import Mathlib.Data.List.Sort
import Timeline.Proofs.Scale.Descent
import Timeline.Proofs.Scale.Grouping

/-! # The tree of a scale and its leaves

The leaves are the groups at the ends of the paths that the descriptors use, numbered in the order
of their descriptors. -/
namespace Timeline

variable {α : Type}

namespace ScaleDescriptor

variable {ds : List (ScaleDescriptor α)} {p : List String}

lemma IsLeafPath.exists_isGreatest (h : IsLeafPath ds p) : ∃ i, IsGreatest (places ds p) i := by
  obtain ⟨d, hd, hpath⟩ := h.1
  cases hlast : lastNamed? ds p with
  | none => exact absurd hpath (lastNamed?_eq_none_iff.1 hlast d hd)
  | some named => exact ⟨_, (mem_places_lastNamed? hlast).2⟩

/-- A longest path leads to a leaf. -/
lemma exists_isLeafPath (h : ds ≠ []) : ∃ p, IsLeafPath ds p := by
  obtain ⟨d, hd⟩ := Option.ne_none_iff_exists'.1
    (mt (List.argmax_eq_none (f := fun d : ScaleDescriptor α => d.path.length)).1 h)
  refine ⟨d.path, ⟨d, List.argmax_mem hd, rfl⟩, fun e he huses => ?_⟩
  have hlength : e.path.length ≤ d.path.length :=
    List.le_of_mem_argmax (f := fun d : ScaleDescriptor α => d.path.length) he hd
  exact (huses.eq_of_length (Nat.le_antisymm huses.length_le hlength)).symm

end ScaleDescriptor

namespace TimeScale
open ScaleDescriptor ScaleGroup

variable {ds : List (ScaleDescriptor α)} {p : List String} {g : ScaleGroup} {i k : Nat}

lemma mem_leafOrder_iff : i ∈ leafOrder (ofDescriptors ds) ↔
    ∃ p, IsLeafPath ds p ∧ IsGreatest (places ds p) i := by
  rw [leafOrder, List.mem_mergeSort, allLeafDescriptors_eq [], List.mem_filterMap]
  constructor
  · rintro ⟨⟨p, g⟩, hnode, hi⟩
    have hat := mem_allNodes_ofDescriptors_iff.1 hnode
    exact ⟨p, ((at?_ofDescriptors_eq_some hat).2.2.exists_leafDescriptor?_iff hat).1 hi⟩
  · rintro ⟨p, hleaf, hi⟩
    obtain ⟨d, hd, rfl⟩ := hleaf.1
    rcases at?_ofDescriptors ds d.path_ne_nil with ⟨-, g, hat, hnames⟩ | ⟨hnone, -⟩
    · exact ⟨(_, g), mem_allNodes_ofDescriptors_iff.2 hat,
        (hnames.exists_leafDescriptor?_iff hat).2 ⟨hleaf, hi⟩⟩
    · exact absurd List.prefix_rfl (hnone d hd)

lemma nodup_allLeafDescriptors (ds : List (ScaleDescriptor α)) :
    (allLeafDescriptors (ofDescriptors ds)).Nodup := by
  have hpaths := nodup_allNodes [] _ (distinct_ofDescriptors ds)
  rw [allLeafDescriptors_eq [], List.Nodup, List.pairwise_filterMap]
  refine (List.pairwise_map.1 hpaths).imp_of_mem ?_
  -- the descriptor of a leaf has the path of the leaf
  rintro ⟨p, g⟩ ⟨p', g'⟩ hnode hnode' hne i hi i' hi' rfl
  have hat := mem_allNodes_ofDescriptors_iff.1 hnode
  have hat' := mem_allNodes_ofDescriptors_iff.1 hnode'
  have hplace := ((at?_ofDescriptors_eq_some hat).2.2.exists_leafDescriptor?_iff hat).1 hi
  have hplace' := ((at?_ofDescriptors_eq_some hat').2.2.exists_leafDescriptor?_iff hat').1 hi'
  obtain ⟨d, hd, hpath⟩ := hplace.2.1
  obtain ⟨d', hd', hpath'⟩ := hplace'.2.1
  obtain rfl : d = d' := Option.some.inj (hd.symm.trans hd')
  exact hne (hpath.symm.trans hpath')

lemma pairwise_leafOrder (ds : List (ScaleDescriptor α)) :
    (leafOrder (ofDescriptors ds)).Pairwise (· < ·) := by
  have hle : (leafOrder (ofDescriptors ds)).Pairwise fun a b => decide (a ≤ b) = true :=
    List.pairwise_mergeSort (by simpa using fun a b c => Nat.le_trans)
      (by simpa using Nat.le_total) _
  have hnodup : (leafOrder (ofDescriptors ds)).Nodup :=
    (List.mergeSort_perm _ _).nodup_iff.2 (nodup_allLeafDescriptors ds)
  refine (hle.and hnodup).imp fun {a b} h => ?_
  exact lt_of_le_of_ne (by simpa using h.1) h.2

/-- The groups of a scale with their leaves numbered. -/
def tree (ds : List (ScaleDescriptor α)) : List ScaleGroup :=
  numberAll (leafOrder (ofDescriptors ds)) (ofDescriptors ds)

lemma mem_nodes_tree_iff : (p, g) ∈ allNodes [] (tree ds) ↔
    ∃ g', at? (ofDescriptors ds) p = some g' ∧ number (leafOrder (ofDescriptors ds)) g' = g := by
  rw [tree, allNodes_numberAll, List.mem_map]
  constructor
  · rintro ⟨⟨q, g'⟩, hnode, ⟨⟩⟩
    exact ⟨g', mem_allNodes_ofDescriptors_iff.1 hnode, rfl⟩
  · rintro ⟨g', hat, rfl⟩
    exact ⟨(p, g'), mem_allNodes_ofDescriptors_iff.2 hat, rfl⟩

lemma getElem?_leafOrder_iff : (leafOrder (ofDescriptors ds)).idxOf? i = some k ↔
    (leafOrder (ofDescriptors ds))[k]? = some i := by
  rw [List.idxOf?_eq_some_iff, List.getElem?_eq_some_iff]
  refine exists_congr fun hk => ⟨fun h => by simpa using h.1, fun h => ?_⟩
  refine ⟨by simpa using h, fun j hj => ?_⟩
  have hlt := List.pairwise_iff_getElem.1 (pairwise_leafOrder ds) j k (hj.trans hk) hk hj
  rw [h] at hlt
  simpa using hlt.ne

/-- What the group at a path of the tree of some descriptors is like. -/
structure IsGroupAt (ds : List (ScaleDescriptor α)) (p : List String) (g : ScaleGroup) :
    Prop where
  key_eq : p.getLast? = some g.key
  descriptor_eq_some_iff : ∀ i, g.descriptor = some i ↔ IsGreatest (places ds p) i
  descriptor_eq_none_iff : g.descriptor = none ↔ ∀ d ∈ ds, d.path ≠ p
  defaultText_eq : g.defaultText = (g.descriptor.bind (ds[·]?)).map (·.label.getD "")
  text_eq : g.text = g.defaultText
  below : InUseOrder ds p (g.children.map ScaleGroup.key)
  below_nodup : (g.children.map ScaleGroup.key).Nodup
  leaf_isSome_iff : g.leaf.isSome ↔ IsLeafPath ds p

lemma leaf_number_eq_some_iff (hat : at? (ofDescriptors ds) p = some g) :
    (number (leafOrder (ofDescriptors ds)) g).leaf = some k ↔ IsLeafPath ds p ∧
      ∃ i, g.descriptor = some i ∧ (leafOrder (ofDescriptors ds))[k]? = some i := by
  have hnames := (at?_ofDescriptors_eq_some hat).2.2
  rw [number_eq, Option.bind_eq_some_iff]
  simp only [hnames.exists_leafDescriptor?_iff hat, getElem?_leafOrder_iff,
    hnames.descriptor_eq_some_iff, and_assoc, exists_and_left]

lemma isGroupAt_of_mem_nodes (h : (p, g) ∈ allNodes [] (tree ds)) : IsGroupAt ds p g := by
  obtain ⟨g, hat, rfl⟩ := mem_nodes_tree_iff.1 h
  obtain ⟨-, -, hnames⟩ := at?_ofDescriptors_eq_some hat
  have hkeys : (number (leafOrder (ofDescriptors ds)) g).children.map ScaleGroup.key =
      keysAt (ofDescriptors ds) p := by
    rw [number_eq, map_key_numberAll, keysAt_of_at? hat]
  constructor
  case below =>
    rw [hkeys]
    exact keysAt_ofDescriptors ds p
  case below_nodup =>
    rw [hkeys]
    exact (keysAt_ofDescriptors ds p).nodup
  case leaf_isSome_iff =>
    rw [Option.isSome_iff_exists]
    simp only [leaf_number_eq_some_iff hat, exists_and_left, and_iff_left_iff_imp]
    intro hleaf
    obtain ⟨i, hi⟩ := hleaf.exists_isGreatest
    obtain ⟨k, hk⟩ := List.mem_iff_getElem?.1 (mem_leafOrder_iff.2 ⟨p, hleaf, hi⟩)
    exact ⟨k, i, hnames.descriptor_eq_some_iff.2 hi, hk⟩
  -- numbering the leaves changes nothing else
  all_goals rw [number_eq]
  case key_eq => exact hnames.key
  case descriptor_eq_some_iff => exact fun i => hnames.descriptor_eq_some_iff
  case descriptor_eq_none_iff => exact hnames.descriptor_eq_none_iff
  case defaultText_eq => exact hnames.defaultText_eq
  case text_eq => exact hnames.text

lemma mem_paths_tree_iff : p ∈ (allNodes [] (tree ds)).map Prod.fst ↔
    p ≠ [] ∧ ∃ d ∈ ds, p <+: d.path := by
  rw [List.mem_map]
  constructor
  · rintro ⟨⟨p, g⟩, hnode, rfl⟩
    obtain ⟨g, hat, rfl⟩ := mem_nodes_tree_iff.1 hnode
    obtain ⟨hp, hused, -⟩ := at?_ofDescriptors_eq_some hat
    exact ⟨hp, hused⟩
  · rintro ⟨hp, d, hd, huses⟩
    rcases at?_ofDescriptors ds hp with ⟨-, g, hat, -⟩ | ⟨hnone, -⟩
    · exact ⟨(p, _), mem_nodes_tree_iff.2 ⟨g, hat, rfl⟩, rfl⟩
    · exact absurd huses (hnone d hd)

lemma leaf_eq_some_iff (h : (p, g) ∈ allNodes [] (tree ds)) : g.leaf = some k ↔
    IsLeafPath ds p ∧ ∃ i, g.descriptor = some i ∧
      (leafOrder (ofDescriptors ds))[k]? = some i := by
  obtain ⟨g, hat, rfl⟩ := mem_nodes_tree_iff.1 h
  rw [leaf_number_eq_some_iff hat, number_eq]

lemma leaf_injective {p' : List String} {g' : ScaleGroup} (h : (p, g) ∈ allNodes [] (tree ds))
    (h' : (p', g') ∈ allNodes [] (tree ds)) (hk : g.leaf = some k) (hk' : g'.leaf = some k) :
    p = p' ∧ g = g' := by
  obtain ⟨-, i, hi, horder⟩ := (leaf_eq_some_iff h).1 hk
  obtain ⟨-, i', hi', horder'⟩ := (leaf_eq_some_iff h').1 hk'
  obtain rfl : i = i' := Option.some.inj (horder.symm.trans horder')
  obtain ⟨d, hd, hpath⟩ := (((isGroupAt_of_mem_nodes h).descriptor_eq_some_iff i).1 hi).1
  obtain ⟨d', hd', hpath'⟩ := (((isGroupAt_of_mem_nodes h').descriptor_eq_some_iff i).1 hi').1
  obtain rfl : d = d' := Option.some.inj (hd.symm.trans hd')
  obtain rfl : p = p' := hpath.symm.trans hpath'
  obtain ⟨g, hat, rfl⟩ := mem_nodes_tree_iff.1 h
  obtain ⟨g', hat', rfl⟩ := mem_nodes_tree_iff.1 h'
  exact ⟨rfl, by rw [Option.some.inj (hat.symm.trans hat')]⟩

variable [Measure α]

/-- The leaves of a scale before the first one gets a place. -/
def items (ds : List (ScaleDescriptor α)) : List (ScaleLeaf α) :=
  ((leafOrder (ofDescriptors ds)).filterMap (ds[·]?)).map ScaleLeaf.ofDescriptor

/-- The groups stand at the paths that the descriptors use, and the leaves are the descriptors of
the groups at the ends of these paths, numbered in their order. -/
structure IsTreeOf (ds : List (ScaleDescriptor α)) (tree : List ScaleGroup)
    (items : List (ScaleLeaf α)) : Prop where
  paths_nodup : ((allNodes [] tree).map Prod.fst).Nodup
  mem_paths_iff : ∀ p, p ∈ (allNodes [] tree).map Prod.fst ↔ p ≠ [] ∧ ∃ d ∈ ds, p <+: d.path
  top : InUseOrder ds [] (tree.map ScaleGroup.key)
  top_nodup : (tree.map ScaleGroup.key).Nodup
  group : ∀ p g, (p, g) ∈ allNodes [] tree → IsGroupAt ds p g
  leaves : ∃ order : List Nat, order.Pairwise (· < ·) ∧
    (∀ i, i ∈ order ↔ ∃ p, IsLeafPath ds p ∧ IsGreatest (places ds p) i) ∧
    List.Forall₂ (fun i item => ∃ d, ds[i]? = some d ∧ item = ScaleLeaf.ofDescriptor d)
      order items ∧
    ∀ p g, (p, g) ∈ allNodes [] tree → ∀ k, g.leaf = some k ↔
      IsLeafPath ds p ∧ ∃ i, g.descriptor = some i ∧ order[k]? = some i
  lt_length_iff : ∀ k, k < items.length ↔ ∃ p g, (p, g) ∈ allNodes [] tree ∧ g.leaf = some k
  leaf_injective : ∀ p g p' g', (p, g) ∈ allNodes [] tree → (p', g') ∈ allNodes [] tree →
    ∀ k, g.leaf = some k → g'.leaf = some k → p = p' ∧ g = g'

lemma forall₂_items (ds : List (ScaleDescriptor α)) :
    List.Forall₂ (fun i item => ∃ d, ds[i]? = some d ∧ item = ScaleLeaf.ofDescriptor d)
      (leafOrder (ofDescriptors ds)) (items ds) := by
  have hplaced : ∀ i ∈ leafOrder (ofDescriptors ds), ∃ d, ds[i]? = some d := by
    intro i hi
    obtain ⟨p, -, ⟨d, hd, -⟩, -⟩ := mem_leafOrder_iff.1 hi
    exact ⟨d, hd⟩
  unfold items
  generalize leafOrder (ofDescriptors ds) = order at hplaced
  induction order with
  | nil => exact .nil
  | cons i order ih =>
    obtain ⟨d, hd⟩ := hplaced i (by simp)
    rw [List.filterMap_cons_some hd, List.map_cons]
    exact .cons ⟨d, hd, rfl⟩ (ih fun j hj => hplaced j (by simp [hj]))

lemma lt_length_items_iff :
    k < (items ds).length ↔ ∃ p g, (p, g) ∈ allNodes [] (tree ds) ∧ g.leaf = some k := by
  rw [← (forall₂_items ds).length_eq]
  constructor
  · intro hk
    have hmem := List.getElem?_eq_getElem hk
    obtain ⟨p, hleaf, hi⟩ := mem_leafOrder_iff.1 (List.mem_of_getElem? hmem)
    obtain ⟨d, hd, rfl⟩ := hleaf.1
    obtain ⟨⟨p, g⟩, hnode, rfl⟩ := List.mem_map.1
      (mem_paths_tree_iff.2 ⟨d.path_ne_nil, d, hd, List.prefix_rfl⟩)
    have hdescriptor := ((isGroupAt_of_mem_nodes hnode).descriptor_eq_some_iff _).2 hi
    exact ⟨_, g, hnode, (leaf_eq_some_iff hnode).2 ⟨hleaf, _, hdescriptor, hmem⟩⟩
  · rintro ⟨p, g, hnode, hk⟩
    obtain ⟨-, i, -, hi⟩ := (leaf_eq_some_iff hnode).1 hk
    exact (List.getElem?_eq_some_iff.1 hi).1

lemma isTreeOf (ds : List (ScaleDescriptor α)) : IsTreeOf ds (tree ds) (items ds) := by
  have htop : (tree ds).map ScaleGroup.key = keysAt (ofDescriptors ds) [] := map_key_numberAll
  constructor
  case paths_nodup =>
    have hnodup := nodup_allNodes [] _ (distinct_ofDescriptors ds)
    rw [tree, allNodes_numberAll, List.map_map]
    exact hnodup
  case mem_paths_iff => exact fun p => mem_paths_tree_iff
  case top => exact htop ▸ keysAt_ofDescriptors ds []
  case top_nodup => exact htop ▸ (keysAt_ofDescriptors ds []).nodup
  case group => exact fun p g => isGroupAt_of_mem_nodes
  case leaves => exact ⟨_, pairwise_leafOrder ds, fun i => mem_leafOrder_iff, forall₂_items ds,
    fun p g h k => leaf_eq_some_iff h⟩
  case lt_length_iff => exact fun k => lt_length_items_iff
  case leaf_injective => exact fun p g p' g' h h' k => leaf_injective h h'

lemma items_eq_nil_iff : items ds = [] ↔ ds = [] := by
  constructor
  · intro h
    by_contra hne
    obtain ⟨p, hleaf⟩ := exists_isLeafPath hne
    obtain ⟨i, hi⟩ := hleaf.exists_isGreatest
    have hmem := mem_leafOrder_iff.2 ⟨p, hleaf, hi⟩
    have hlength := (forall₂_items ds).length_eq
    rw [h, List.length_nil, List.length_eq_zero_iff] at hlength
    rw [hlength] at hmem
    cases hmem
  · rintro rfl
    simp [items]

omit [Measure α] in
lemma setStarts_ne_noScaleItems {s : TimeScale α} {starts : List Moment} {stop? : Option Moment} :
    s.setStarts starts stop? ≠ .error .noScaleItems := by
  intro h
  rcases setStarts_eq_error_iff.1 h with ⟨-, hcause⟩ | ⟨_, -, _, _, _, -, hcause⟩ <;> cases hcause

lemma build_eq_bind (h : items ds ≠ []) (size : α) : build ds size =
    restore ⟨tree ds, items ds, Measure.sum ((items ds).map (·.unit)), size, 0, h⟩ >>=
      fun s => .ok (s.setSize size) := by
  unfold build
  exact dif_neg h

/-- The tree and the leaves of any descriptors are as the paths say, which are the keys between the
hyphens of their texts. These are the groups and the leaves that a scale is built with; only where
there is no descriptor there is nothing to build. -/
theorem isTreeOf_tree (ds : List (ScaleDescriptor α)) :
    (∀ d ∈ ds, ∀ p, d.HasPath p ↔ d.path = p) ∧ IsTreeOf ds (tree ds) (items ds) ∧ ∀ size : α,
      (build ds size = .error .noScaleItems ↔ ds = []) ∧
      ∀ s, build ds size = .ok s → s.groups = tree ds ∧
        s.leaves.map ScaleLeaf.template = (items ds).map ScaleLeaf.template := by
  refine ⟨fun _ _ _ => hasPath_iff, isTreeOf ds, fun size => ?_⟩
  by_cases h : items ds = []
  · have hbuild : build ds size = .error .noScaleItems := by
      unfold build
      exact dif_pos h
    rw [hbuild]
    exact ⟨iff_of_true rfl (items_eq_nil_iff.1 h), nofun⟩
  · rw [build_eq_bind h]
    refine ⟨iff_of_false ?_ (mt items_eq_nil_iff.2 h), fun s hs => ?_⟩
    · intro hnone
      cases hrestored : restore ⟨tree ds, items ds, Measure.sum ((items ds).map (·.unit)), size, 0,
        h⟩ with
      | error cause =>
        rw [hrestored, Except.error_bind] at hnone
        cases hnone
        exact setStarts_ne_noScaleItems hrestored
      | ok restored =>
        rw [hrestored, Except.ok_bind] at hnone
        cases hnone
    · obtain ⟨restored, hrestored, hsized⟩ := Except.bind_eq_ok_iff.1 hs
      obtain ⟨stop, -, -, hne, rfl⟩ := setStarts_eq_ok_iff.1 hrestored
      cases hsized
      refine ⟨rfl, ?_⟩
      change (ScaleLeaf.place _ _ (ScaleLeaf.setAllBounds _ _)).map ScaleLeaf.template = _
      rw [ScaleLeaf.map_place fun _ _ _ _ => rfl, ScaleLeaf.map_setAllBounds fun _ _ _ => rfl]

/-- A group is described after one below it, another one twice, and one has empty keys. -/
def scattered : List (ScaleDescriptor Float) :=
  [⟨"2024-Q1-Jan", none, none, none, some "J"⟩, ⟨"2024", none, none, none, some "FY"⟩,
    ⟨"-", none, none, none, none⟩, ⟨"2024-Q2", none, none, none, none⟩,
    ⟨"2024-Q1-Jan", none, none, none, some "January"⟩]

lemma leafOrder_scattered : leafOrder (ofDescriptors scattered) = [2, 3, 4] := by
  have htree : allLeafDescriptors (ofDescriptors scattered) = [4, 3, 2] := by decide +kernel
  have hperm : (leafOrder (ofDescriptors scattered)).Perm [2, 3, 4] := by
    rw [leafOrder, htree]
    exact (List.mergeSort_perm _ _).trans (by decide)
  exact hperm.eq_of_pairwise' (pairwise_leafOrder scattered) (by decide)

theorem isTreeOf_tree_scattered :
    (∀ d ∈ scattered, d.pathKey = "2024-Q1-Jan" → d.HasPath ["2024", "Q1", "Jan"]) ∧
      (∀ d ∈ scattered, d.pathKey = "-" → d.HasPath ["", ""]) ∧
      IsTreeOf scattered (tree scattered) (items scattered) ∧
      (allNodes [] (tree scattered)).map (fun (p, g) => (p, g.text, g.descriptor, g.leaf)) =
        [(["2024"], some "FY", some 1, none), (["2024", "Q1"], none, none, none),
          (["2024", "Q1", "Jan"], some "January", some 4, some 2),
          (["2024", "Q2"], some "", some 3, some 1), ([""], none, none, none),
          (["", ""], some "", some 2, some 0)] := by
  obtain ⟨hpaths, htree, -⟩ := isTreeOf_tree scattered
  refine ⟨fun d hd hkey => (hpaths d hd _).2 ?_, fun d hd hkey => (hpaths d hd _).2 ?_, htree, ?_⟩
  · rw [path, hkey]
    decide
  · rw [path, hkey]
    decide
  · rw [tree, leafOrder_scattered]
    decide +kernel

end TimeScale

end Timeline
