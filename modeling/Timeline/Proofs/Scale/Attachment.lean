import Mathlib.Tactic.Common
import Timeline.Scale.Group

/-! # Attaching descriptors

What attaching a descriptor does to the group at every path and to the keys below it. A path that
the descriptor does not use is left alone. -/
namespace Timeline.ScaleGroup

variable {key key' : String} {index : Nat} {label : Option String} {g : ScaleGroup}
  {level : List ScaleGroup} {path p rest : List String}

/-- Attaches a descriptor along a path from a group downward. -/
def graft (index : Nat) (label : Option String) : List String → ScaleGroup → ScaleGroup
  | [], g => describe index label g
  | rest, g => { g with children := attach index label rest g.children }

/-- The first group with a key, or a new one. -/
def child (key : String) (level : List ScaleGroup) : ScaleGroup :=
  (find? key level).getD (new key)

/-- The keys of the groups below a path, in order. -/
def keysAt (level : List ScaleGroup) : List String → List String
  | [] => level.map ScaleGroup.key
  | key :: rest => keysAt (child key level).children rest

@[simp] lemma key_graft : (graft index label path g).key = g.key := by
  cases path <;> rfl

@[simp] lemma children_graft :
    (graft index label path g).children = attach index label path g.children := by
  cases path <;> rfl

lemma attach_cons :
    attach index label (key :: rest) level = modify key (graft index label rest) level := by
  cases rest <;> rfl

section
variable {change : ScaleGroup → ScaleGroup}

lemma find?_modify (hchange : ∀ g, (change g).key = g.key) :
    find? key' (modify key change level) =
      if key' = key then some (change (child key level)) else find? key' level := by
  induction level with
  | nil =>
    have hkey : (change (new key)).key = key := hchange _
    by_cases h : key' = key
    · simp [modify, find?, child, hkey, h]
    · simp [modify, find?, hkey, h, Ne.symm h]
  | cons g level ih =>
    by_cases hg : g.key = key
    · by_cases h : key' = key
      · simp [modify, find?, child, hchange, hg, h]
      · simp [modify, find?, hchange, hg, h, Ne.symm h]
    · have hchild : child key (g :: level) = child key level := by simp [child, find?, hg]
      rw [modify, if_neg hg, hchild]
      by_cases h : g.key = key'
      · have hne : key' ≠ key := h ▸ hg
        simp [find?, h, hne]
      · have hcons (level : List ScaleGroup) : find? key' (g :: level) = find? key' level := by
          simp [find?, h]
        rw [hcons, hcons, ih]

lemma map_key_modify (hchange : ∀ g, (change g).key = g.key) :
    (modify key change level).map ScaleGroup.key =
      if key ∈ level.map ScaleGroup.key then level.map ScaleGroup.key
      else level.map ScaleGroup.key ++ [key] := by
  induction level with
  | nil =>
    have hkey : (change (new key)).key = key := hchange _
    simp [modify, hkey]
  | cons g level ih =>
    by_cases hg : g.key = key
    · simp [modify, hchange, hg]
    · rw [modify, if_neg hg, List.map_cons, ih]
      by_cases hmem : key ∈ level.map ScaleGroup.key
      · simp [hmem]
      · simp [hmem, Ne.symm hg]

end

lemma child_attach :
    child key' (attach index label (key :: rest) level) =
      if key' = key then graft index label rest (child key level) else child key' level := by
  rw [attach_cons, child, find?_modify fun _ => key_graft]
  split_ifs <;> rfl

lemma at?_nil_left (p : List String) : at? [] p = none := by
  cases p with
  | nil => rfl
  | cons key rest => cases rest <;> rfl

lemma keysAt_nil_left (p : List String) : keysAt [] p = [] := by
  induction p with
  | nil => rfl
  | cons key rest ih => exact ih

lemma at?_cons (hrest : rest ≠ []) :
    at? level (key :: rest) = at? (child key level).children rest := by
  obtain ⟨next, rest, rfl⟩ := List.exists_cons_of_ne_nil hrest
  rw [at?, child]
  · cases find? key level with
    | none => exact (at?_nil_left _).symm
    | some g => rfl
  · exact hrest

lemma keysAt_of_at? (h : at? level p = some g) :
    keysAt level p = g.children.map ScaleGroup.key := by
  induction p generalizing level with
  | nil => cases h
  | cons key rest ih =>
    cases rest with
    | nil =>
      have hfind : find? key level = some g := h
      rw [keysAt, keysAt, child, hfind, Option.getD_some]
    | cons next rest =>
      rw [at?_cons (List.cons_ne_nil _ _)] at h
      exact ih h

/-- Attaching a descriptor changes the groups that its path leads to or through, which are put
there if they are missing, and no other one. -/
theorem at?_attach (hp : p ≠ []) :
    at? (attach index label path level) p =
      if p <+: path then
        some (graft index label (path.drop p.length) ((at? level p).getD (new (p.getLast hp))))
      else at? level p := by
  induction path generalizing p level with
  | nil =>
    have hnot : ¬ p <+: [] := fun h => hp (List.prefix_nil.1 h)
    rw [if_neg hnot, attach]
  | cons key rest ih =>
    obtain ⟨key', q, rfl⟩ := List.exists_cons_of_ne_nil hp
    cases q with
    | nil =>
      have huses : [key'] <+: key :: rest ↔ key' = key := by simp
      simp only [huses, at?, attach_cons, find?_modify fun _ => key_graft]
      split_ifs with h
      · subst h
        rfl
      · rfl
    | cons next q =>
      have hq : next :: q ≠ [] := List.cons_ne_nil _ _
      rw [at?_cons hq, at?_cons hq, child_attach]
      by_cases h : key' = key
      · subst h
        have huses : key' :: next :: q <+: key' :: rest ↔ next :: q <+: rest := by simp
        simp only [if_true, children_graft, ih hq, huses]
        rfl
      · have huses : ¬ key' :: next :: q <+: key :: rest := by simp [h]
        rw [if_neg h, if_neg huses]

/-- A path that goes on from `p` puts its next key after the other ones there, unless it is one of
them. -/
theorem keysAt_attach :
    keysAt (attach index label (p ++ key :: rest) level) p =
      if key ∈ keysAt level p then keysAt level p else keysAt level p ++ [key] := by
  induction p generalizing level with
  | nil =>
    rw [List.nil_append, attach_cons]
    exact map_key_modify fun _ => key_graft
  | cons key' q ih =>
    rw [List.cons_append, keysAt, child_attach, if_pos rfl, children_graft]
    exact ih

theorem keysAt_attach_of_not (h : ∀ key, ¬ p ++ [key] <+: path) :
    keysAt (attach index label path level) p = keysAt level p := by
  induction p generalizing level path with
  | nil =>
    cases path with
    | nil => rfl
    | cons key rest => exact absurd (by simp) (h key)
  | cons key' q ih =>
    cases path with
    | nil => rfl
    | cons key rest =>
      rw [keysAt, child_attach]
      split_ifs with hkey
      · subst hkey
        rw [children_graft]
        refine ih fun next hnext => h next ?_
        simpa using hnext
      · rfl

end Timeline.ScaleGroup
