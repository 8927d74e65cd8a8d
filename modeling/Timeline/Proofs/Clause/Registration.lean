import Mathlib
import Timeline.Clause.Table

/-! # Registration

A table compiles a text when it is first registered and remembers which id it gave to it. Whatever
is registered before or after, in any order and repeated or not, the id of a text stands for what
compiling that text by itself gives. -/
namespace Timeline.ExpressionTable

/-- Registers texts one after another: the id that each of them gets, and the table in the end. -/
def registerAll (t : ExpressionTable) : List String → List Nat × ExpressionTable
  | [] => ([], t)
  | text :: texts =>
    let (id, t) := t.register text
    let (ids, t) := t.registerAll texts
    (id :: ids, t)

/-- Different texts in the order in which they first occur, after those that are known. -/
def distinct (known : List String) : List String → List String
  | [] => known
  | text :: texts => distinct (if text ∈ known then known else known ++ [text]) texts

section
variable {known : List String}

lemma distinct_append (known texts texts' : List String) :
    distinct known (texts ++ texts') = distinct (distinct known texts) texts' := by
  induction texts generalizing known with
  | nil => rfl
  | cons text texts ih => exact ih _

lemma prefix_distinct (known texts : List String) : known <+: distinct known texts := by
  induction texts generalizing known with
  | nil => exact List.prefix_refl known
  | cons text texts ih =>
    refine List.IsPrefix.trans ?_ (ih _)
    split
    · exact List.prefix_refl known
    · exact List.prefix_append known [text]

lemma mem_distinct_iff {text : String} (known texts : List String) :
    text ∈ distinct known texts ↔ text ∈ known ∨ text ∈ texts := by
  induction texts generalizing known with
  | nil => simp [distinct]
  | cons first texts ih =>
    rw [distinct, ih, List.mem_cons]
    split
    · next hfirst =>
      constructor
      · tauto
      · rintro (hknown | rfl | htexts)
        · exact .inl hknown
        · exact .inl hfirst
        · exact .inr htexts
    · rw [List.mem_append, List.mem_singleton, or_assoc]

lemma nodup_distinct (hknown : known.Nodup) (texts : List String) :
    (distinct known texts).Nodup := by
  induction texts generalizing known with
  | nil => exact hknown
  | cons text texts ih =>
    refine ih ?_
    split
    · exact hknown
    · next htext => exact hknown.append (List.nodup_singleton text) (by simpa using htext)

lemma length_distinct (texts : List String) :
    (distinct [] texts).length = texts.toFinset.card := by
  have hset : (distinct [] texts).toFinset = texts.toFinset := by
    ext text
    simp [mem_distinct_iff]
  rw [← hset, List.toFinset_card_of_nodup (nodup_distinct List.nodup_nil texts)]

/-- A text that is met for the first time stands behind the different ones before it. -/
lemma idxOf_distinct_of_first {before after : List String} {text : String}
    (htext : text ∉ before) :
    (distinct [] (before ++ text :: after)).idxOf text = (distinct [] before).length := by
  have hnew : text ∉ distinct [] before := by simpa [mem_distinct_iff] using htext
  obtain ⟨rest, hrest⟩ := prefix_distinct (distinct [] before ++ [text]) after
  rw [distinct_append, distinct, if_neg hnew, ← hrest, List.append_assoc,
    List.idxOf_append_of_notMem hnew]
  simp

end

/-- A table holds different texts: the clauses of each are where its id says. -/
structure Holds (t : ExpressionTable) (texts : List String) : Prop where
  nodup : texts.Nodup
  lists_eq : t.lists = texts.map ClauseList.compile
  idOf?_of_mem : ∀ text ∈ texts, t.idOf? text = some (texts.idxOf text)
  idOf?_of_notMem : ∀ text, text ∉ texts → t.idOf? text = none

lemma holds_empty : empty.Holds [] := ⟨List.nodup_nil, rfl, nofun, fun _ _ => rfl⟩

section
variable {t : ExpressionTable} {known : List String} {text : String}

namespace Holds

lemma size_eq (h : t.Holds known) : t.size = known.length := by
  rw [size, h.lists_eq, List.length_map]

lemma register_of_mem (h : t.Holds known) (htext : text ∈ known) :
    t.register text = (known.idxOf text, t) := by
  rw [register, h.idOf?_of_mem text htext]

/-- A new text gets the next id, and the ids of the others stay. -/
lemma register_of_notMem (h : t.Holds known) (htext : text ∉ known) :
    (t.register text).1 = known.length ∧ (t.register text).2.Holds (known ++ [text]) := by
  have hids (other : String) : List.lookup other ((text, t.size) :: t.ids) =
      if other = text then some known.length else t.idOf? other := by
    rw [List.lookup_cons, h.size_eq]
    split <;> simp_all [idOf?]
  rw [register, h.idOf?_of_notMem text htext]
  refine ⟨h.size_eq, h.nodup.append (List.nodup_singleton text) (by simpa using htext), ?_, ?_, ?_⟩
  · simp [h.lists_eq]
  · intro other hother
    rw [idOf?, hids]
    split
    · next heq => simp [heq, List.idxOf_append_of_notMem htext]
    · next hne =>
      have hknown : other ∈ known := by simpa [hne] using hother
      rw [h.idOf?_of_mem other hknown, List.idxOf_append_of_mem hknown]
  · intro other hother
    simp only [List.mem_append, List.mem_singleton, not_or] at hother
    rw [idOf?, hids, if_neg hother.2, h.idOf?_of_notMem other hother.1]

/-- A registered text has the place of its first occurrence as its id. -/
lemma register_fst (h : t.Holds known) (text : String) (texts : List String) :
    (t.register text).1 = (distinct known (text :: texts)).idxOf text := by
  by_cases htext : text ∈ known
  · obtain ⟨rest, hrest⟩ := prefix_distinct known texts
    rw [h.register_of_mem htext, distinct, if_pos htext, ← hrest,
      List.idxOf_append_of_mem htext]
  · obtain ⟨rest, hrest⟩ := prefix_distinct (known ++ [text]) texts
    rw [(h.register_of_notMem htext).1, distinct, if_neg htext, ← hrest, List.append_assoc,
      List.idxOf_append_of_notMem htext]
    simp

lemma register_snd (h : t.Holds known) (text : String) :
    (t.register text).2.Holds (if text ∈ known then known else known ++ [text]) := by
  split
  · next htext => rwa [h.register_of_mem htext]
  · next htext => exact (h.register_of_notMem htext).2

/-- Registering texts adds those that are new, and gives each text its place among all of them. -/
theorem registerAll (h : t.Holds known) (texts : List String) :
    (t.registerAll texts).1 = texts.map ((distinct known texts).idxOf ·) ∧
      (t.registerAll texts).2.Holds (distinct known texts) := by
  induction texts generalizing t known with
  | nil => exact ⟨rfl, h⟩
  | cons text texts ih =>
    obtain ⟨hids, hholds⟩ := ih (h.register_snd text)
    refine ⟨?_, hholds⟩
    exact congrArg₂ List.cons (h.register_fst text texts) hids

lemma get?_idxOf (h : t.Holds known) (htext : text ∈ known) :
    t.get? (known.idxOf text) = some (ClauseList.compile text) := by
  rw [get?, h.lists_eq, List.getElem?_map, List.getElem?_idxOf htext]
  rfl

end Holds

end

/-- The errors of lists whose ids count up from the given one. -/
def errorsFrom : Nat → List ClauseList → List (Nat × CompileError)
  | _, [] => []
  | id, list :: lists => list.diagnostics.map (id, ·) ++ errorsFrom (id + 1) lists

lemma diagnostics_eq_errorsFrom (t : ExpressionTable) : t.diagnostics = errorsFrom 0 t.lists := by
  unfold diagnostics
  generalize 0 = first
  induction t.lists generalizing first with
  | nil => rfl
  | cons list lists ih => rw [List.zipIdx_cons, List.flatMap_cons, ih, errorsFrom]

section
variable {first : Nat} {lists : List ClauseList}

lemma le_fst_of_mem_errorsFrom {d : Nat × CompileError} (h : d ∈ errorsFrom first lists) :
    first ≤ d.1 ∧ d.1 < first + lists.length := by
  induction lists generalizing first with
  | nil => cases h
  | cons list lists ih =>
    rw [List.length_cons]
    rcases List.mem_append.1 h with hd | hd
    · obtain ⟨error, -, rfl⟩ := List.mem_map.1 hd
      dsimp only
      omega
    · have := ih hd
      omega

lemma pairwise_errorsFrom (first : Nat) (lists : List ClauseList) :
    ((errorsFrom first lists).map Prod.fst).Pairwise (· ≤ ·) := by
  induction lists generalizing first with
  | nil => exact .nil
  | cons list lists ih =>
    rw [errorsFrom, List.map_append, List.pairwise_append]
    refine ⟨?_, ih _, ?_⟩
    · simp only [List.map_map, Function.comp_def, List.map_const']
      exact List.pairwise_replicate.2 (.inr (Nat.le_refl first))
    · intro id hid id' hid'
      obtain ⟨d, hd, rfl⟩ := List.mem_map.1 hid
      obtain ⟨error, -, rfl⟩ := List.mem_map.1 hd
      obtain ⟨d', hd', rfl⟩ := List.mem_map.1 hid'
      exact Nat.le_of_succ_le (le_fst_of_mem_errorsFrom hd').1

/-- The errors with an id are those of the list with it. -/
lemma filter_errorsFrom {n : Nat} {list : ClauseList} (h : lists[n]? = some list) :
    ((errorsFrom first lists).filter (·.1 = first + n)).map Prod.snd = list.diagnostics := by
  induction lists generalizing first n with
  | nil => cases h
  | cons head lists ih =>
    rw [errorsFrom, List.filter_append]
    cases n with
    | zero =>
      obtain rfl : head = list := Option.some.inj h
      have hown : (head.diagnostics.map (first, ·)).filter (·.1 = first + 0) =
          head.diagnostics.map (first, ·) := List.filter_eq_self.2 (by simp)
      have hothers : (errorsFrom (first + 1) lists).filter (·.1 = first + 0) = [] := by
        refine List.filter_eq_nil_iff.2 fun d hd => ?_
        have := (le_fst_of_mem_errorsFrom hd).1
        simp only [decide_eq_true_eq]
        omega
      rw [hown, hothers, List.append_nil, List.map_map]
      exact List.map_id _
    | succ n =>
      have hown : (head.diagnostics.map (first, ·)).filter (·.1 = first + (n + 1)) = [] := by
        simp
      rw [hown, List.nil_append, Nat.add_comm n 1, ← Nat.add_assoc]
      exact ih h

end

/-- What registering texts one after another gives: an id for each call, and a table that answers
for each id what compiling its text would. -/
structure Registers (texts : List String) (ids : List Nat) (t : ExpressionTable) : Prop where
  length_ids : ids.length = texts.length
  size_eq : t.size = texts.toFinset.card
  id_eq_iff : ∀ a ∈ texts.zip ids, ∀ b ∈ texts.zip ids, a.2 = b.2 ↔ a.1 = b.1
  /-- A new text gets the number of different texts before it. -/
  id_of_first : ∀ before text after, texts = before ++ text :: after → text ∉ before →
    ids[before.length]? = some before.toFinset.card
  /-- Registering a text again gives its id and changes nothing. -/
  register_eq : ∀ a ∈ texts.zip ids, t.register a.1 = (a.2, t)
  get?_eq : ∀ a ∈ texts.zip ids, t.get? a.2 = some (ClauseList.compile a.1)
  get?_eq_none_iff : ∀ id, t.get? id = none ↔ t.size ≤ id
  evaluate?_eq : ∀ a ∈ texts.zip ids, ∀ depth scope,
    t.evaluate? depth scope a.2 = some ((ClauseList.compile a.1).evaluate depth scope)
  evaluate?_eq_none_iff : ∀ id depth scope, t.evaluate? depth scope id = none ↔ t.size ≤ id
  diagnostics_ordered : (t.diagnostics.map Prod.fst).Pairwise (· ≤ ·)
  diagnostics_eq : ∀ a ∈ texts.zip ids,
    (t.diagnostics.filter (·.1 = a.2)).map Prod.snd = (ClauseList.compile a.1).diagnostics
  fst_mem_ids : ∀ d ∈ t.diagnostics, d.1 ∈ ids

lemma get?_eq_none_iff (t : ExpressionTable) (id : Nat) : t.get? id = none ↔ t.size ≤ id :=
  List.getElem?_eq_none_iff

/-- A table that holds exactly the registered texts answers for each of them. -/
lemma Holds.registers {t : ExpressionTable} {texts : List String}
    (h : t.Holds (distinct [] texts)) :
    Registers texts (texts.map ((distinct [] texts).idxOf ·)) t := by
  have hmem {text : String} (htext : text ∈ texts) : text ∈ distinct [] texts :=
    (mem_distinct_iff [] texts).2 (.inr htext)
  have hget {text : String} (htext : text ∈ texts) :
      t.get? ((distinct [] texts).idxOf text) = some (ClauseList.compile text) :=
    h.get?_idxOf (hmem htext)
  have hzip : texts.zip (texts.map ((distinct [] texts).idxOf ·)) =
      texts.map fun text => (text, (distinct [] texts).idxOf text) :=
    List.map_prod_left_eq_zip.symm
  refine ⟨List.length_map _, h.size_eq.trans (length_distinct texts), ?_, ?_, ?_, ?_,
    t.get?_eq_none_iff, ?_, ?_, ?_, ?_, ?_⟩
  · simp only [hzip, List.forall_mem_map]
    exact fun text htext text' _ => List.idxOf_inj (hmem htext)
  · rintro before text after rfl htext
    simp [idxOf_distinct_of_first htext, length_distinct]
  · simp only [hzip, List.forall_mem_map]
    exact fun text htext => h.register_of_mem (hmem htext)
  · simp only [hzip, List.forall_mem_map]
    exact fun text htext => hget htext
  · simp only [hzip, List.forall_mem_map]
    intro text htext depth scope
    rw [evaluate?, hget htext, Option.map_some]
  · intro id depth scope
    rw [evaluate?, Option.map_eq_none_iff, t.get?_eq_none_iff]
  · rw [diagnostics_eq_errorsFrom]
    exact pairwise_errorsFrom 0 t.lists
  · simp only [hzip, List.forall_mem_map]
    intro text htext
    have hfilter := @filter_errorsFrom 0 t.lists _ _ (hget htext)
    simp only [Nat.zero_add] at hfilter
    rw [diagnostics_eq_errorsFrom, hfilter]
  · intro d hd
    rw [diagnostics_eq_errorsFrom] at hd
    have hlt : d.1 < (distinct [] texts).length := by
      have hbound := (le_fst_of_mem_errorsFrom hd).2
      rwa [Nat.zero_add, ← size, h.size_eq] at hbound
    refine List.mem_map.2 ⟨(distinct [] texts)[d.1], ?_, h.nodup.idxOf_getElem d.1 hlt⟩
    exact ((mem_distinct_iff [] texts).1 (List.getElem_mem hlt)).resolve_left List.not_mem_nil

/-- However texts are registered in a new table, it has one list for each different text. Ids count
up with the new texts and stay with them, and the table answers for an id as compiling its text
would. -/
theorem registers_registerAll (texts : List String) :
    Registers texts (empty.registerAll texts).1 (empty.registerAll texts).2 := by
  obtain ⟨hids, hholds⟩ := holds_empty.registerAll texts
  rw [hids]
  exact hholds.registers

example : (empty.registerAll ["x=item.a", "y=item.b", "x=item.a", ""]).1 = [0, 1, 0, 2] := by
  decide

end Timeline.ExpressionTable
