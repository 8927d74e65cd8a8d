import Mathlib.Data.List.Count
import Mathlib.Tactic.Common
import Timeline.Calendar.Reader
import Timeline.Proofs.Text.Runs

/-! # Readers exclude one another

What a reader passes over between the marks of its form holds digits, blanks, signs and points only.
So the number of each other character of a text that it accepts is that of the marks, and these
numbers tell the readers apart: no text is accepted by two of them, and the order in which they are
tried makes no difference. -/
namespace Timeline.Calendar
open Text

/-- May a character stand in a text without a mark for it? -/
def IsFiller (c : Char) : Prop := c.isDigit ∨ isBlank c ∨ c ∈ ['+', '-', '.']

instance (c : Char) : Decidable (IsFiller c) := inferInstanceAs (Decidable (_ ∨ _ ∨ _))

/-- What is left of a text at a place before which there are no marks. -/
def Passes (cs rest : List Char) : Prop := ∃ used, cs = used ++ rest ∧ ∀ c ∈ used, IsFiller c

variable {c : Char} {cs rest rest' : List Char} {n most count : Nat} {f f' : Fields} {part : Part}
  {layout : List Part} {m : Moment}

namespace Passes

lemma trans (h : Passes cs rest) (h' : Passes rest rest') : Passes cs rest' := by
  obtain ⟨used, rfl, hused⟩ := h
  obtain ⟨used', rfl, hused'⟩ := h'
  refine ⟨used ++ used', (List.append_assoc ..).symm, fun c hc => ?_⟩
  exact (List.mem_append.1 hc).elim (hused c) (hused' c)

lemma count_eq (h : Passes cs rest) (hc : ¬ IsFiller c) : cs.count c = rest.count c := by
  obtain ⟨used, rfl, hused⟩ := h
  rw [List.count_append, List.count_eq_zero.2 fun hmem => hc (hused c hmem), Nat.zero_add]

lemma of_cons (hc : IsFiller c) (h : Passes cs rest) : Passes (c :: cs) rest :=
  trans ⟨[c], rfl, by simpa using hc⟩ h

end Passes

lemma passes_trimStart (cs : List Char) : Passes cs (trimStart cs) := by
  refine ⟨cs.takeWhile isBlank, List.takeWhile_append_dropWhile.symm, fun c hc => .inr (.inl ?_)⟩
  exact List.mem_takeWhile_imp hc

lemma passes_drop_digits (cs : List Char) (count : Nat) :
    Passes cs (cs.drop (digits (cs.take count)).1.length) := by
  have hprefix : (digits (cs.take count)).1 <+: cs :=
    (List.takeWhile_prefix Char.isDigit).trans (List.take_prefix count cs)
  exact ⟨_, (List.prefix_iff_eq_append.1 hprefix).symm,
    fun c hc => .inl (List.mem_takeWhile_imp hc)⟩

lemma passes_of_numberUpTo? (h : numberUpTo? most cs = some (n, rest)) : Passes cs rest := by
  simp only [numberUpTo?] at h
  split at h
  · cases h
  · cases h
    exact passes_drop_digits cs most

lemma passes_of_numberOf? (h : numberOf? count cs = some (n, rest)) : Passes cs rest := by
  simp only [numberOf?] at h
  split at h
  · next hlength =>
    cases h
    have hpasses := passes_drop_digits cs count
    rwa [hlength] at hpasses
  · cases h

lemma passes_of_digits {ds : List Char} (h : digits cs = (ds, rest)) : Passes cs rest := by
  obtain ⟨rfl, rfl⟩ := Prod.mk.inj h
  exact ⟨_, List.takeWhile_append_dropWhile.symm, fun c hc => .inl (List.mem_takeWhile_imp hc)⟩

lemma passes_of_number? (h : number? cs = some (n, rest)) : Passes cs rest := by
  unfold number? at h
  split at h
  · cases h
  · next hdigits =>
    cases h
    exact passes_of_digits hdigits

lemma passes_of_fraction? (h : fraction? cs = some (n, rest)) : Passes cs rest := by
  unfold fraction? at h
  split at h
  · split at h
    · cases h
    · next hdigits =>
      cases h
      exact .of_cons (by decide) (passes_of_digits hdigits)
  · cases h
    exact ⟨[], rfl, nofun⟩

lemma passes_of_year? {year : Int} (h : year? cs = some (year, rest)) : Passes cs rest := by
  unfold year? at h
  split at h <;> obtain ⟨⟨n, rest⟩, hnumber, hpair⟩ := Option.map_eq_some_iff.1 h <;> cases hpair
  · exact .of_cons (by decide) (passes_of_number? hnumber)
  · exact .of_cons (by decide) (passes_of_number? hnumber)
  · exact passes_of_numberUpTo? hnumber

/-- A part passes over its mark, if it is one, and over no other. -/
lemma count_of_read? (h : part.read? f cs = some (f', rest)) (hc : ¬ IsFiller c) :
    cs.count c = [part].count (.mark c) + rest.count c := by
  cases part with
  | mark d =>
    cases cs with
    | nil => cases h
    | cons e cs =>
      simp only [Part.read?] at h
      split at h
      · next heq =>
        cases h
        simp [List.count_cons, heq, Nat.add_comm]
      · cases h
  | gap =>
    cases h
    simpa using (passes_trimStart cs).count_eq hc
  | fraction =>
    obtain ⟨⟨n, rest⟩, hnumber, hpair⟩ := Option.map_eq_some_iff.1 h
    cases hpair
    simpa using (passes_of_fraction? hnumber).count_eq hc
  | year =>
    obtain ⟨⟨n, rest⟩, hnumber, hpair⟩ := Option.map_eq_some_iff.1 h
    cases hpair
    simpa using ((passes_trimStart cs).trans (passes_of_year? hnumber)).count_eq hc
  | month | day | hour | minute | second =>
    obtain ⟨⟨n, rest⟩, hnumber, hpair⟩ := Option.map_eq_some_iff.1 h
    cases hpair
    simpa using ((passes_trimStart cs).trans (passes_of_numberUpTo? hnumber)).count_eq hc

lemma count_of_readParts? (h : readParts? layout f cs = some f') (hc : ¬ IsFiller c) :
    cs.count c = layout.count (.mark c) := by
  induction layout generalizing f cs with
  | nil =>
    cases cs with
    | nil => rfl
    | cons => cases h
  | cons part layout ih =>
    rw [readParts?] at h
    split at h
    · cases h
    · next f'' rest hread =>
      have hcons : ([part] ++ layout).count (.mark c) =
          [part].count (.mark c) + layout.count (.mark c) := List.count_append
      rw [count_of_read? hread hc, ih h, ← hcons, List.singleton_append]

/-- A text in a layout has the marks of the layout. -/
theorem count_of_readLayout? (h : readLayout? layout cs = some m) (hc : ¬ IsFiller c) :
    cs.count c = layout.count (.mark c) := by
  obtain ⟨f, hparts, -⟩ := Option.bind_eq_some_iff.1 h
  exact count_of_readParts? hparts hc

lemma count_le_of_oneOf? {marks : List Char} (h : oneOf? marks cs = some rest) :
    rest.count c ≤ cs.count c := by
  cases cs with
  | nil => cases h
  | cons d cs =>
    rw [oneOf?] at h
    split at h
    · cases h
      exact List.count_le_count_cons
    · cases h

lemma eq_cons_of_oneOf? {mark : Char} (h : oneOf? [mark] cs = some rest) : cs = mark :: rest := by
  cases cs with
  | nil => cases h
  | cons d cs =>
    rw [oneOf?] at h
    split at h
    · next hmem =>
      cases h
      rw [List.mem_singleton.1 (List.contains_iff_mem.1 hmem)]
    · cases h

/-- The marks by which a text with an offset can be told. -/
lemma one_le_count_of_isOffset (h : isOffset cs = true) :
    1 ≤ cs.count 'Z' ∨ 1 ≤ cs.count 'z' ∨ 1 ≤ cs.count ':' := by
  unfold isOffset at h
  split at h
  · simp
  · simp
  · next sign rest _ _ =>
    rw [Bool.and_eq_true] at h
    obtain ⟨-, h⟩ := h
    split at h
    · next hours rest' hnumber =>
      have hcount := (passes_of_numberOf? hnumber).count_eq (c := ':') (by decide)
      rw [List.count_cons_self] at hcount
      have hle : rest.count ':' ≤ (sign :: rest).count ':' := List.count_le_count_cons
      omega
    · cases h
  · cases h

lemma exists_isOffset_of_readRfc3339? (h : readRfc3339? cs = some m) :
    ∃ rest, isOffset rest = true ∧
      ∀ c, ¬ IsFiller c → 2 * [':'].count c + rest.count c ≤ cs.count c := by
  simp only [readRfc3339?, Option.bind_eq_bind, Option.bind_eq_some_iff, Prod.exists] at h
  obtain ⟨_, cs₁, hyear, cs₂, hmark₁, _, cs₃, hmonth, cs₄, hmark₂, _, cs₅, hday, cs₆, hmark₃,
    _, cs₇, hhour, cs₈, hmark₄, _, cs₉, hminute, cs₁₀, hmark₅, _, cs₁₁, hsecond,
    _, rest, hfraction, h⟩ := h
  split at h
  · next hoffset =>
    refine ⟨rest, hoffset, fun c hc => ?_⟩
    have hcolon : cs₇.count c = [':'].count c + cs₈.count c := by
      rw [eq_cons_of_oneOf? hmark₄, ← List.count_append, List.singleton_append]
    have hcolon' : cs₉.count c = [':'].count c + cs₁₀.count c := by
      rw [eq_cons_of_oneOf? hmark₅, ← List.count_append, List.singleton_append]
    calc 2 * [':'].count c + rest.count c
      _ = 2 * [':'].count c + cs₁₀.count c := by
        rw [← (passes_of_fraction? hfraction).count_eq hc,
          ← (passes_of_numberOf? hsecond).count_eq hc]
      _ = [':'].count c + cs₈.count c := by
        rw [(passes_of_numberOf? hminute).count_eq hc, hcolon']
        omega
      _ = cs₆.count c := by rw [← hcolon, (passes_of_numberOf? hhour).count_eq hc]
      _ ≤ cs₄.count c := by
        rw [(passes_of_numberOf? hday).count_eq hc]
        exact count_le_of_oneOf? hmark₃
      _ ≤ cs₂.count c := by
        rw [(passes_of_numberOf? hmonth).count_eq hc]
        exact count_le_of_oneOf? hmark₂
      _ ≤ cs.count c := by
        rw [(passes_of_numberOf? hyear).count_eq hc]
        exact count_le_of_oneOf? hmark₁
  · cases h

/-- A text in the form of RFC 3339 has a mark of its offset, or three colons. -/
theorem count_of_readRfc3339? (h : readRfc3339? cs = some m) :
    1 ≤ cs.count 'Z' ∨ 1 ≤ cs.count 'z' ∨ 3 ≤ cs.count ':' := by
  obtain ⟨rest, hoffset, hcount⟩ := exists_isOffset_of_readRfc3339? h
  have hZ : rest.count 'Z' ≤ cs.count 'Z' := by simpa using hcount 'Z' (by decide)
  have hz : rest.count 'z' ≤ cs.count 'z' := by simpa using hcount 'z' (by decide)
  have hcolon : 2 + rest.count ':' ≤ cs.count ':' := by simpa using hcount ':' (by decide)
  have hone := one_le_count_of_isOffset hoffset
  omega

def layouts : List (List Part) := timeLayouts ++ dateLayouts

/-- The marks by which layouts are told apart. -/
def tellingMarks : List Char := [':', 'T', '/']

/-- No two layouts have the same numbers of these marks. -/
lemma layouts_pairwise : layouts.Pairwise fun l l' =>
    tellingMarks.any fun c => l.count (.mark c) != l'.count (.mark c) := by
  decide

lemma not_isFiller_of_mem (hc : c ∈ tellingMarks) : ¬ IsFiller c := by
  simp only [tellingMarks, List.mem_cons, List.not_mem_nil, or_false] at hc
  rcases hc with rfl | rfl | rfl <;> decide

lemma count_mark_le {l : List Part} (h : l ∈ layouts) :
    l.count (.mark 'Z') = 0 ∧ l.count (.mark 'z') = 0 ∧ l.count (.mark ':') ≤ 2 := by
  revert l
  decide

/-- The readers exclude one another. -/
theorem readers_pairwise (cs : List Char) :
    readers.Pairwise fun read? read?' => read? cs = none ∨ read?' cs = none := by
  have hpairwise :
      layouts.Pairwise fun l l' => readLayout? l cs = none ∨ readLayout? l' cs = none := by
    refine layouts_pairwise.imp fun {l l'} hmarks => ?_
    obtain ⟨c, hc, hne⟩ := List.any_eq_true.1 hmarks
    have hfiller : ¬ IsFiller c := not_isFiller_of_mem hc
    cases h : readLayout? l cs with
    | none => exact .inl rfl
    | some m =>
      cases h' : readLayout? l' cs with
      | none => exact .inr rfl
      | some m' =>
        refine absurd ?_ (bne_iff_ne.1 hne)
        rw [← count_of_readLayout? h hfiller, count_of_readLayout? h' hfiller]
  refine List.pairwise_cons.2 ⟨fun read? hmem => ?_, List.pairwise_map.2 hpairwise⟩
  obtain ⟨l, hl, rfl⟩ := List.mem_map.1 hmem
  cases h : readRfc3339? cs with
  | none => exact .inl rfl
  | some m =>
    cases h' : readLayout? l cs with
    | none => exact .inr rfl
    | some m' =>
      have hoffset := count_of_readRfc3339? h
      rw [count_of_readLayout? h' (by decide), count_of_readLayout? h' (by decide),
        count_of_readLayout? h' (by decide)] at hoffset
      have hmarks := count_mark_le hl
      omega

section
variable {α β : Type} {f : α → Option β} {xs ys : List α}

lemma filterMap_eq_toList (h : xs.Pairwise fun x y => f x = none ∨ f y = none) :
    xs.filterMap f = (xs.findSome? f).toList := by
  induction h with
  | nil => rfl
  | @cons x xs hx _ ih =>
    cases hfx : f x with
    | none => rw [List.filterMap_cons_none hfx, List.findSome?_cons_of_isNone (by simp [hfx]), ih]
    | some b =>
      have hnone : xs.filterMap f = [] :=
        List.filterMap_eq_nil_iff.2 fun y hy => (hx y hy).resolve_left (by simp [hfx])
      rw [List.filterMap_cons_some hfx, List.findSome?_cons_of_isSome (by simp [hfx]), hnone, hfx]
      rfl

/-- Of functions that exclude one another the first result is the same in every order. -/
lemma findSome?_eq_of_perm (h : xs.Pairwise fun x y => f x = none ∨ f y = none)
    (hperm : xs.Perm ys) : xs.findSome? f = ys.findSome? f := by
  have hmap := hperm.filterMap f
  rw [filterMap_eq_toList h] at hmap
  rw [← List.head?_filterMap (l := ys)]
  cases hfirst : xs.findSome? f with
  | none =>
    rw [hfirst, Option.toList_none, List.nil_perm] at hmap
    rw [hmap, List.head?_nil]
  | some b =>
    rw [hfirst, Option.toList_some, List.singleton_perm] at hmap
    rw [← hmap, List.head?_singleton]

lemma findSome?_eq_some_of_mem {x : α} {b : β}
    (h : xs.Pairwise fun x y => f x = none ∨ f y = none) (hmem : x ∈ xs) (hx : f x = some b) :
    xs.findSome? f = some b := by
  have hb : b ∈ xs.filterMap f := List.mem_filterMap.2 ⟨x, hmem, hx⟩
  rwa [filterMap_eq_toList h, Option.mem_toList] at hb

lemma findSome?_flatten (f : α → Option β) (xss : List (List α)) :
    xss.flatten.findSome? f = xss.findSome? fun xs => xs.findSome? f := by
  induction xss with
  | nil => rfl
  | cons xs xss ih =>
    rw [List.flatten_cons, List.findSome?_append, List.findSome?_cons, ih]
    cases xs.findSome? f <;> rfl

end

/-- At most one reader accepts a text. So a moment is read the same in whatever order the layouts of
times, those of dates, and the three stages are tried. -/
theorem readers_exclude_one_another :
    (∀ cs : List Char, (readers.filter fun read? => (read? cs).isSome).length ≤ 1) ∧
      ∀ (times dates : List (List Part)) (stages : List (List (List Char → Option Moment)))
        (s : String), times.Perm timeLayouts → dates.Perm dateLayouts →
        stages.Perm [[readRfc3339?], times.map readLayout?, dates.map readLayout?] →
        (stages.findSome? fun stage => stage.findSome? fun read? => read? (trim s.toList)) =
          Moment.ofText? s := by
  refine ⟨fun cs => ?_, fun times dates stages s htimes hdates hstages => ?_⟩
  · rw [← List.countP_eq_length_filter, ← List.length_filterMap_eq_countP,
      filterMap_eq_toList (readers_pairwise cs)]
    exact Option.length_toList_le
  · have hlayouts : (times.map readLayout? ++ dates.map readLayout?).Perm
        (layouts.map readLayout?) := by
      rw [← List.map_append]
      exact (htimes.append hdates).map readLayout?
    have hreaders : readers.Perm stages.flatten := by
      have hflatten : [[readRfc3339?], times.map readLayout?, dates.map readLayout?].flatten =
          readRfc3339? :: (times.map readLayout? ++ dates.map readLayout?) := by simp
      exact (hflatten ▸ hstages.flatten).trans (hlayouts.cons readRfc3339?) |>.symm
    rw [← findSome?_flatten, Moment.ofText?]
    exact (findSome?_eq_of_perm (readers_pairwise _) hreaders).symm

/-- The stages and the layouts tried from the last one to the first. -/
theorem readers_exclude_one_another_reversed :
    timeLayouts.reverse.Perm timeLayouts ∧ dateLayouts.reverse.Perm dateLayouts ∧
      ([dateLayouts.reverse.map readLayout?, timeLayouts.reverse.map readLayout?,
        [readRfc3339?]].findSome? fun stage =>
          stage.findSome? fun read? => read? (trim " -12/ 2/2912:30\u3000".toList)) =
        Moment.ofText? " -12/ 2/2912:30\u3000" := by
  have htimes : timeLayouts.reverse.Perm timeLayouts := List.reverse_perm _
  have hdates : dateLayouts.reverse.Perm dateLayouts := List.reverse_perm _
  have hstages := List.reverse_perm
    [[readRfc3339?], timeLayouts.reverse.map readLayout?, dateLayouts.reverse.map readLayout?]
  exact ⟨htimes, hdates, readers_exclude_one_another.2 _ _ _ _ htimes hdates hstages⟩

end Timeline.Calendar
