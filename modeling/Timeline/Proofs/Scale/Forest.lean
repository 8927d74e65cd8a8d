import Mathlib.Data.List.Nodup
import Timeline.Proofs.Scale.Attachment

/-! # The groups of a tree with their paths

Where the keys at every level differ from one another, the paths of the groups do too, and a group
is found along its path. Leaves and their numbers are read off the groups one by one. -/
namespace Timeline.ScaleGroup

mutual

/-- The groups from a group down, each with its path, below the path `above`. -/
def nodes (above : List String) : ScaleGroup → List (List String × ScaleGroup)
  | ⟨key, defaultText, text, descriptor, leaf, children⟩ =>
    (above ++ [key], ⟨key, defaultText, text, descriptor, leaf, children⟩) ::
      allNodes (above ++ [key]) children

def allNodes (above : List String) : List ScaleGroup → List (List String × ScaleGroup)
  | [] => []
  | g :: level => nodes above g ++ allNodes above level

end

variable {above p : List String} {order : List Nat} {g : ScaleGroup} {level : List ScaleGroup}
  {node : List String × ScaleGroup}

/-- The keys at every level differ from one another. -/
def Distinct (level : List ScaleGroup) : Prop := ∀ p, (keysAt level p).Nodup

lemma child_cons_self : child g.key (g :: level) = g := by simp [child, find?]

lemma child_cons_of_ne {key : String} (h : key ≠ g.key) :
    child key (g :: level) = child key level := by
  simp [child, find?, Ne.symm h]

lemma child_of_not_mem {key : String} (h : key ∉ level.map ScaleGroup.key) :
    child key level = new key := by
  have hnone : find? key level = none := by
    refine List.find?_eq_none.2 fun g hg hkey => h ?_
    exact List.mem_map.2 ⟨g, hg, by simpa using hkey⟩
  rw [child, hnone, Option.getD_none]

namespace Distinct

lemma not_mem (h : Distinct (g :: level)) : g.key ∉ level.map ScaleGroup.key :=
  (List.nodup_cons.1 (h [])).1

lemma children (h : Distinct (g :: level)) : Distinct g.children := by
  intro p
  have hp := h (g.key :: p)
  rwa [keysAt, child_cons_self] at hp

lemma tail (h : Distinct (g :: level)) : Distinct level := by
  intro p
  cases p with
  | nil => exact (List.nodup_cons.1 (h [])).2
  | cons key rest =>
    by_cases hkey : key = g.key
    · rw [keysAt, hkey, child_of_not_mem h.not_mem]
      exact keysAt_nil_left rest ▸ List.nodup_nil
    · have hp := h (key :: rest)
      rwa [keysAt, child_cons_of_ne hkey] at hp

end Distinct

lemma at?_cons_self (hp : p ≠ []) : at? (g :: level) (g.key :: p) = at? g.children p := by
  rw [at?_cons hp, child_cons_self]

lemma at?_cons_of_ne {key : String} (h : key ≠ g.key) (p : List String) :
    at? (g :: level) (key :: p) = at? level (key :: p) := by
  cases p with
  | nil => simp [at?, find?, Ne.symm h]
  | cons next rest =>
    rw [at?_cons (List.cons_ne_nil _ _), at?_cons (List.cons_ne_nil _ _), child_cons_of_ne h]

/-- Only the keys of a level lead to its groups. -/
lemma exists_of_at? (h : at? level p = some g) :
    ∃ key rest, p = key :: rest ∧ key ∈ level.map ScaleGroup.key := by
  cases p with
  | nil => cases h
  | cons key rest =>
    refine ⟨key, rest, rfl, ?_⟩
    by_contra hkey
    have hchild := child_of_not_mem hkey
    cases rest with
    | nil =>
      have hfind : find? key level = some g := h
      have hmem := List.mem_of_find?_eq_some hfind
      have hg : g.key = key := by simpa using List.find?_some hfind
      exact hkey (List.mem_map.2 ⟨g, hmem, hg⟩)
    | cons next rest =>
      rw [at?_cons (List.cons_ne_nil _ _), hchild] at h
      exact nomatch (at?_nil_left _).symm.trans h

mutual

theorem mem_nodes_iff (above : List String) (g : ScaleGroup) (h : Distinct g.children) :
    node ∈ nodes above g ↔ node = (above ++ [g.key], g) ∨
      ∃ p, node.1 = above ++ g.key :: p ∧ at? g.children p = some node.2 := by
  cases g with
  | mk key defaultText text descriptor leaf children =>
    rw [nodes, List.mem_cons, mem_allNodes_iff (above ++ [key]) children h]
    simp only [List.append_assoc, List.singleton_append]

/-- The groups are what stands at the paths. -/
theorem mem_allNodes_iff (above : List String) (level : List ScaleGroup) (h : Distinct level) :
    node ∈ allNodes above level ↔ ∃ p, node.1 = above ++ p ∧ at? level p = some node.2 := by
  cases level with
  | nil => simp [allNodes, at?_nil_left]
  | cons g level =>
    rw [allNodes, List.mem_append, mem_nodes_iff above g h.children,
      mem_allNodes_iff above level h.tail]
    constructor
    · rintro ((rfl | ⟨p, hnode, hp⟩) | ⟨p, hnode, hp⟩)
      · exact ⟨[g.key], rfl, by simp [at?, find?]⟩
      · obtain ⟨key, rest, rfl, -⟩ := exists_of_at? hp
        exact ⟨_, hnode, by rwa [at?_cons_self (List.cons_ne_nil _ _)]⟩
      · obtain ⟨key, rest, rfl, hkey⟩ := exists_of_at? hp
        have hne : key ≠ g.key := fun heq => h.not_mem (heq ▸ hkey)
        exact ⟨_, hnode, by rwa [at?_cons_of_ne hne]⟩
    · rintro ⟨p, hnode, hp⟩
      obtain ⟨key, rest, rfl, -⟩ := exists_of_at? hp
      by_cases hkey : key = g.key
      · subst hkey
        cases rest with
        | nil =>
          have hg : g = node.2 := by simpa [at?, find?] using hp
          exact .inl (.inl (Prod.ext hnode hg.symm))
        | cons next rest =>
          rw [at?_cons_self (List.cons_ne_nil _ _)] at hp
          exact .inl (.inr ⟨_, hnode, hp⟩)
      · rw [at?_cons_of_ne hkey] at hp
        exact .inr ⟨_, hnode, hp⟩

end

mutual

theorem nodup_nodes (above : List String) (g : ScaleGroup) (h : Distinct g.children) :
    ((nodes above g).map Prod.fst).Nodup := by
  cases g with
  | mk key defaultText text descriptor leaf children =>
    rw [nodes, List.map_cons, List.nodup_cons]
    refine ⟨fun hmem => ?_, nodup_allNodes (above ++ [key]) children h⟩
    obtain ⟨node, hnode, hpath⟩ := List.mem_map.1 hmem
    obtain ⟨p, hp, hat⟩ := (mem_allNodes_iff _ _ h).1 hnode
    obtain ⟨key, rest, rfl, -⟩ := exists_of_at? hat
    rw [hp] at hpath
    simp at hpath

/-- No two groups have one path. -/
theorem nodup_allNodes (above : List String) (level : List ScaleGroup) (h : Distinct level) :
    ((allNodes above level).map Prod.fst).Nodup := by
  cases level with
  | nil => exact List.nodup_nil
  | cons g level =>
    rw [allNodes, List.map_append, List.nodup_append]
    refine ⟨nodup_nodes above g h.children, nodup_allNodes above level h.tail, ?_⟩
    rintro path hpath path' hpath' rfl
    obtain ⟨node, hnode, rfl⟩ := List.mem_map.1 hpath
    obtain ⟨node', hnode', heq⟩ := List.mem_map.1 hpath'
    obtain ⟨p, hp, hat⟩ := (mem_allNodes_iff _ _ h.tail).1 hnode'
    obtain ⟨key, rest, rfl, hkey⟩ := exists_of_at? hat
    have hfirst : ∃ rest, node.1 = above ++ g.key :: rest := by
      rcases (mem_nodes_iff above g h.children).1 hnode with rfl | ⟨rest, hrest, -⟩
      · exact ⟨[], rfl⟩
      · exact ⟨rest, hrest⟩
    obtain ⟨rest', hrest'⟩ := hfirst
    rw [← heq, hp] at hrest'
    obtain ⟨rfl, -⟩ := List.cons.inj (List.append_cancel_left hrest')
    exact h.not_mem hkey

end

/-- The descriptor of a group that has none below it. -/
def leafDescriptor? (g : ScaleGroup) : Option Nat :=
  if g.children.isEmpty then g.descriptor else none

mutual

theorem leafDescriptors_eq (above : List String) (g : ScaleGroup) :
    leafDescriptors g = (nodes above g).filterMap (leafDescriptor? ·.2) := by
  cases g with
  | mk key defaultText text descriptor leaf children =>
    rw [nodes, List.filterMap_cons, ← allLeafDescriptors_eq (above ++ [key]) children]
    cases descriptor with
    | none => simp [leafDescriptors, leafDescriptor?]
    | some index =>
      cases children with
      | nil => rfl
      | cons child children => simp [leafDescriptors, leafDescriptor?]

/-- The leaves are the groups with a descriptor and no group below. -/
theorem allLeafDescriptors_eq (above : List String) (level : List ScaleGroup) :
    allLeafDescriptors level = (allNodes above level).filterMap (leafDescriptor? ·.2) := by
  cases level with
  | nil => rfl
  | cons g level =>
    rw [allLeafDescriptors, allNodes, List.filterMap_append, ← leafDescriptors_eq above g,
      ← allLeafDescriptors_eq above level]

end

/-- Numbering changes only the numbers. -/
lemma number_eq (order : List Nat) (g : ScaleGroup) : number order g =
    { g with leaf := (leafDescriptor? g).bind (order.idxOf? ·),
             children := numberAll order g.children } := by
  cases g with
  | mk key defaultText text descriptor leaf children =>
    cases children <;> rfl

lemma map_key_numberAll :
    (numberAll order level).map ScaleGroup.key = level.map ScaleGroup.key := by
  induction level with
  | nil => rfl
  | cons g level ih => rw [numberAll, List.map_cons, List.map_cons, number_eq, ih]

mutual

theorem nodes_number (above : List String) (g : ScaleGroup) :
    nodes above (number order g) = (nodes above g).map (Prod.map id (number order)) := by
  cases g with
  | mk key defaultText text descriptor leaf children =>
    rw [number, nodes, nodes, List.map_cons, allNodes_numberAll (above ++ [key]) children]
    rfl

/-- Numbering the leaves keeps the groups where they are. -/
theorem allNodes_numberAll (above : List String) (level : List ScaleGroup) :
    allNodes above (numberAll order level) =
      (allNodes above level).map (Prod.map id (number order)) := by
  cases level with
  | nil => rfl
  | cons g level =>
    rw [numberAll, allNodes, allNodes, List.map_append, nodes_number above g,
      allNodes_numberAll above level]

end

end Timeline.ScaleGroup
