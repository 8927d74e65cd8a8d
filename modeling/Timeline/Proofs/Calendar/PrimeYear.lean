import Mathlib.Data.Finset.Lattice.Fold
import Mathlib.Data.Set.Card
import Mathlib.Order.Interval.Finset.Nat
import Mathlib.Order.Lattice.Nat
import Timeline.Calendar.PrimeYear
import Timeline.Proofs.Calendar.Range

/-! # The prime year

How well ranges of dates cover a year is the most months of it that one of them touches. The prime
year is the earliest of the years that are covered best. It does not depend on the order of the
ranges, nor on how often one of them is given. -/
namespace Timeline

namespace Calendar

/-- The months of a year with a day that is in a range. -/
def touched (range : Date × Date) (year : Int) : Set Nat :=
  {month | ∃ d : Date, d.year = year ∧ d.month = month ∧ ¬ d < range.1 ∧ ¬ range.2 < d}

/-- The most months of a year that one of the ranges touches which do not end before they start. -/
noncomputable def score (ranges : List (Date × Date)) (year : Int) : Nat :=
  (ranges.filter fun range => ¬ range.2 < range.1).toFinset.sup fun range =>
    (touched range year).ncard

/-- The first month of a year that days from a date on can have. -/
def monthFrom (first : Date) (year : Int) : Nat := if year = first.year then first.month else 1

/-- The last month of a year that days up to a date can have. -/
def monthTo (last : Date) (year : Int) : Nat := if year = last.year then last.month else 12

section touched

variable {range : Date × Date} {year : Int} {month count : Nat}

lemma mem_touched_iff (h : ¬ range.2 < range.1) : month ∈ touched range year ↔
    1 ≤ month ∧ month ≤ 12 ∧ range.1.monthNumber ≤ year * 12 + (month - 1 : Nat) ∧
      year * 12 + (month - 1 : Nat) ≤ range.2.monthNumber := by
  constructor
  · rintro ⟨d, rfl, rfl, hfirst, hlast⟩
    obtain ⟨hm, hm', -, -⟩ := d.bounds
    exact ⟨hm, hm', Date.monthNumber_mono hfirst, Date.monthNumber_mono hlast⟩
  · rintro ⟨hm, hm', hfirst, hlast⟩
    obtain ⟨hs, hs', -, -⟩ := range.1.bounds
    obtain ⟨he, he', -, -⟩ := range.2.bounds
    -- the first day and the last one are in the range, and so are all days of the months between
    by_cases hstart : range.1.monthNumber = year * 12 + (month - 1 : Nat)
    · unfold Date.monthNumber at hstart
      exact ⟨range.1, by omega, by omega, Date.lt_irrefl _, h⟩
    by_cases hstop : range.2.monthNumber = year * 12 + (month - 1 : Nat)
    · unfold Date.monthNumber at hstop
      exact ⟨range.2, by omega, by omega, h, Date.lt_irrefl _⟩
    have hyear : hasYear year = true := by
      have hs := Date.hasYear_iff.1 range.1.valid.1
      have he := Date.hasYear_iff.1 range.2.valid.1
      unfold Date.monthNumber at hfirst hlast
      exact Date.hasYear_iff.2 (by omega)
    have hlength := @monthLength_bounds year month hm
    let d : Date := ⟨year, month, 1, hyear, hm, hm', Nat.le_refl 1, by omega⟩
    have hd : d.monthNumber = year * 12 + (month - 1 : Nat) := rfl
    refine ⟨d, rfl, rfl, ?_, ?_⟩ <;> rw [Date.lt_iff_monthNumber, hd] <;> omega

lemma monthFrom_le_monthTo (h : ¬ range.2 < range.1) (year : Int) :
    1 ≤ monthFrom range.1 year ∧ monthFrom range.1 year ≤ monthTo range.2 year ∧
      monthTo range.2 year ≤ 12 := by
  obtain ⟨hs, hs', -, -⟩ := range.1.bounds
  obtain ⟨he, he', -, -⟩ := range.2.bounds
  have hle := Date.monthNumber_mono h
  unfold Date.monthNumber at hle
  unfold monthFrom monthTo
  split_ifs <;> omega

lemma touched_eq_Icc (h : ¬ range.2 < range.1) (hfirst : range.1.year ≤ year)
    (hlast : year ≤ range.2.year) :
    touched range year = Finset.Icc (monthFrom range.1 year) (monthTo range.2 year) := by
  obtain ⟨hs, hs', -, -⟩ := range.1.bounds
  obtain ⟨he, he', -, -⟩ := range.2.bounds
  ext month
  rw [mem_touched_iff h, Finset.mem_coe, Finset.mem_Icc]
  unfold Date.monthNumber monthFrom monthTo
  split_ifs <;> omega

lemma touched_eq_empty (h : ¬ range.2 < range.1)
    (hyear : year < range.1.year ∨ range.2.year < year) : touched range year = ∅ := by
  obtain ⟨hs, hs', -, -⟩ := range.1.bounds
  obtain ⟨he, he', -, -⟩ := range.2.bounds
  refine Set.eq_empty_of_forall_notMem fun month hmem => ?_
  rw [mem_touched_iff h] at hmem
  unfold Date.monthNumber at hmem
  omega

lemma ncard_touched (h : ¬ range.2 < range.1) (hfirst : range.1.year ≤ year)
    (hlast : year ≤ range.2.year) :
    (touched range year).ncard = monthsTouched range.1 range.2 year := by
  obtain ⟨-, hle, -⟩ := monthFrom_le_monthTo h year
  have hcount : monthsTouched range.1 range.2 year =
    monthTo range.2 year - monthFrom range.1 year + 1 := rfl
  rw [touched_eq_Icc h hfirst hlast, Set.ncard_coe_finset, Nat.card_Icc, hcount]
  omega

lemma mem_years_iff {first last : Int} : year ∈ years first last ↔ first ≤ year ∧ year ≤ last := by
  simp only [years, List.mem_map, List.mem_range]
  constructor
  · rintro ⟨n, hn, rfl⟩
    omega
  · exact fun h => ⟨(year - first).toNat, by omega, by omega⟩

lemma mem_coverage_iff_years : (year, count) ∈ coverage range ↔ ¬ range.2 < range.1 ∧
    (range.1.year ≤ year ∧ year ≤ range.2.year) ∧
      monthsTouched range.1 range.2 year = count := by
  unfold coverage
  split_ifs with h <;> simp [h, mem_years_iff]

/-- A range covers the years of which it touches a month. -/
lemma mem_coverage_iff : (year, count) ∈ coverage range ↔
    ¬ range.2 < range.1 ∧ 0 < count ∧ (touched range year).ncard = count := by
  rw [mem_coverage_iff_years]
  refine and_congr_right fun h => ?_
  constructor
  · rintro ⟨⟨hfirst, hlast⟩, rfl⟩
    exact ⟨Nat.succ_pos _, ncard_touched h hfirst hlast⟩
  · rintro ⟨hcount, rfl⟩
    have hyear : range.1.year ≤ year ∧ year ≤ range.2.year := by
      by_contra hnot
      rw [touched_eq_empty h (by omega), Set.ncard_empty] at hcount
      exact lt_irrefl 0 hcount
    exact ⟨hyear, (ncard_touched h hyear.1 hyear.2).symm⟩

lemma count_of_mem_coverage (h : (year, count) ∈ coverage range) :
    monthFrom range.1 year ≤ monthTo range.2 year ∧
      count = monthTo range.2 year - monthFrom range.1 year + 1 ∧ 1 ≤ count ∧ count ≤ 12 := by
  obtain ⟨hforward, -, rfl⟩ := mem_coverage_iff_years.1 h
  obtain ⟨hfirst, hle, hlast⟩ := monthFrom_le_monthTo hforward year
  have hcount : monthsTouched range.1 range.2 year =
    monthTo range.2 year - monthFrom range.1 year + 1 := rfl
  exact ⟨hle, hcount, by omega, by omega⟩

end touched

section score

variable {ranges ranges' : List (Date × Date)} {year : Int} {count : Nat}

lemma mem_flatMap_coverage_iff : (year, count) ∈ ranges.flatMap coverage ↔
    0 < count ∧ ∃ r ∈ ranges, ¬ r.2 < r.1 ∧ (touched r year).ncard = count := by
  simp only [List.mem_flatMap, mem_coverage_iff]
  constructor
  · rintro ⟨r, hr, h, hcount, hncard⟩
    exact ⟨hcount, r, hr, h, hncard⟩
  · rintro ⟨hcount, r, hr, h, hncard⟩
    exact ⟨r, hr, h, hcount, hncard⟩

lemma mem_forward_iff {r : Date × Date} :
    r ∈ (ranges.filter fun r => ¬ r.2 < r.1).toFinset ↔ r ∈ ranges ∧ ¬ r.2 < r.1 := by
  rw [List.mem_toFinset, List.mem_filter, decide_eq_true_eq]

lemma le_score (h : (year, count) ∈ ranges.flatMap coverage) : count ≤ score ranges year := by
  obtain ⟨-, r, hr, hforward, rfl⟩ := mem_flatMap_coverage_iff.1 h
  exact Finset.le_sup (f := fun r => (touched r year).ncard) (mem_forward_iff.2 ⟨hr, hforward⟩)

/-- A score is the count of one of the ranges. -/
lemma score_mem (h : 0 < score ranges year) :
    (year, score ranges year) ∈ ranges.flatMap coverage := by
  have hne : (ranges.filter fun r => ¬ r.2 < r.1).toFinset.Nonempty := by
    by_contra hempty
    rw [score, Finset.not_nonempty_iff_eq_empty.1 hempty, Finset.sup_empty] at h
    exact lt_irrefl 0 h
  obtain ⟨r, hr, hscore⟩ := Finset.exists_mem_eq_sup _ hne fun r => (touched r year).ncard
  obtain ⟨hmem, hforward⟩ := mem_forward_iff.1 hr
  exact mem_flatMap_coverage_iff.2 ⟨h, r, hmem, hforward, hscore.symm⟩

lemma start_mem_coverage {r : Date × Date} (h : ¬ r.2 < r.1) :
    (r.1.year, monthsTouched r.1 r.2 r.1.year) ∈ coverage r := by
  have hyear : r.1.year ≤ r.2.year := by
    have hle := Date.monthNumber_mono h
    rw [← Date.year_of_monthNumber, ← Date.year_of_monthNumber r.2]
    omega
  exact mem_coverage_iff.2 ⟨h, Nat.succ_pos _, ncard_touched h (le_refl _) hyear⟩

lemma flatMap_coverage_eq_nil_iff :
    ranges.flatMap coverage = [] ↔ ∀ r ∈ ranges, r.2 < r.1 := by
  rw [List.flatMap_eq_nil_iff]
  refine forall₂_congr fun r _ => ⟨fun hnil => ?_, fun h => if_pos h⟩
  by_contra h
  have hmem := start_mem_coverage h
  rw [hnil] at hmem
  cases hmem

lemma score_congr (h : ∀ r, ¬ r.2 < r.1 → (r ∈ ranges' ↔ r ∈ ranges)) :
    score ranges' = score ranges := by
  have hforward : (ranges'.filter fun r => ¬ r.2 < r.1).toFinset =
      (ranges.filter fun r => ¬ r.2 < r.1).toFinset := by
    ext r
    rw [mem_forward_iff, mem_forward_iff]
    exact and_congr_left (h r)
  funext year
  rw [score, score, hforward]

end score

/-- Is a year with its score as good as another one, or better? -/
def NoWorse (a b : Int × Nat) : Prop := b.2 < a.2 ∨ b.2 = a.2 ∧ a.1 ≤ b.1

/-- The best of some years with their scores. -/
structure IsBest (cs : List (Int × Nat)) (best : Int × Nat) : Prop where
  mem : best ∈ cs
  noWorse : ∀ c ∈ cs, NoWorse best c

lemma NoWorse.refl (a : Int × Nat) : NoWorse a a := .inr ⟨rfl, Int.le_refl _⟩

lemma NoWorse.trans {a b c : Int × Nat} (h : NoWorse a b) (h' : NoWorse b c) : NoWorse a c := by
  unfold NoWorse at *
  omega

lemma better_eq_or (a b : Int × Nat) : better a b = a ∨ better a b = b := by
  unfold better
  split_ifs
  · exact .inr rfl
  · exact .inl rfl

lemma better_noWorse (a b : Int × Nat) :
    NoWorse (better a b) a ∧ NoWorse (better a b) b := by
  unfold better NoWorse
  split_ifs <;> omega

lemma IsBest.unique {cs : List (Int × Nat)} {a b : Int × Nat} (ha : IsBest cs a)
    (hb : IsBest cs b) : a = b := by
  have hab := ha.noWorse b hb.mem
  have hba := hb.noWorse a ha.mem
  unfold NoWorse at hab hba
  exact Prod.ext (by omega) (by omega)

/-- Going through years keeps the best one. -/
lemma isBest_foldl_better (first : Int × Nat) (others : List (Int × Nat)) :
    IsBest (first :: others) (others.foldl better first) := by
  induction others generalizing first with
  | nil => exact ⟨by simp, by simp [NoWorse.refl]⟩
  | cons c others ih =>
    obtain ⟨hmem, hall⟩ := ih (better first c)
    rw [List.forall_mem_cons] at hall
    obtain ⟨hfirst, hc⟩ := better_noWorse first c
    refine ⟨?_, List.forall_mem_cons.2 ⟨hall.1.trans hfirst, List.forall_mem_cons.2
      ⟨hall.1.trans hc, hall.2⟩⟩⟩
    rcases List.mem_cons.1 hmem with h | h
    · rw [List.foldl_cons, h]
      rcases better_eq_or first c with h | h <;> simp [h]
    · exact List.mem_cons_of_mem _ (List.mem_cons_of_mem _ h)

section primeYear

variable {ranges ranges' : List (Date × Date)} {year : Int} {count : Nat}

lemma primeYear?_eq_some_iff : primeYear? ranges = some year ↔
    ∃ count, IsBest (ranges.flatMap coverage) (year, count) := by
  unfold primeYear?
  cases ranges.flatMap coverage with
  | nil => exact ⟨nofun, fun ⟨_, h⟩ => nomatch h.mem⟩
  | cons first others =>
    have hbest := isBest_foldl_better first others
    rw [Option.some.injEq]
    constructor
    · rintro rfl
      exact ⟨_, hbest⟩
    · rintro ⟨count, h⟩
      rw [hbest.unique h]

lemma primeYear?_eq_none_iff : primeYear? ranges = none ↔ ∀ r ∈ ranges, r.2 < r.1 := by
  rw [← flatMap_coverage_eq_nil_iff]
  unfold primeYear?
  cases ranges.flatMap coverage <;> simp

/-- The best year is the earliest one with the highest score. -/
lemma IsBest.isLeast (h : IsBest (ranges.flatMap coverage) (year, count)) :
    IsLeast {y | ∀ y', score ranges y' ≤ score ranges y} year := by
  have hpos : 0 < count := (mem_flatMap_coverage_iff.1 h.mem).1
  have hle (y : Int) : score ranges y ≤ count := by
    rcases Nat.eq_zero_or_pos (score ranges y) with hzero | hscore
    · omega
    · rcases h.noWorse _ (score_mem hscore) with hlt | ⟨heq, -⟩
      · exact hlt.le
      · exact heq.le
  have hcount : score ranges year = count := le_antisymm (hle year) (le_score h.mem)
  refine ⟨fun y => hcount.symm ▸ hle y, fun y hy => ?_⟩
  have hy : score ranges y = count := le_antisymm (hle y) (hcount ▸ hy year)
  have hmem : (y, count) ∈ ranges.flatMap coverage := by
    rw [← hy]
    exact score_mem (hy ▸ hpos)
  rcases h.noWorse _ hmem with hlt | ⟨-, hyear⟩
  · exact absurd hlt (lt_irrefl _)
  · exact hyear

theorem primeYear?_eq_some_iff_isLeast : primeYear? ranges = some year ↔
    (∃ r ∈ ranges, ¬ r.2 < r.1) ∧ IsLeast {y | ∀ y', score ranges y' ≤ score ranges y} year := by
  have hsome {y : Int} (h : primeYear? ranges = some y) :
      IsLeast {y | ∀ y', score ranges y' ≤ score ranges y} y := by
    obtain ⟨count, hbest⟩ := primeYear?_eq_some_iff.1 h
    exact hbest.isLeast
  have hforward : (∃ r ∈ ranges, ¬ r.2 < r.1) ↔ primeYear? ranges ≠ none := by
    rw [ne_eq, primeYear?_eq_none_iff]
    push Not
    rfl
  rw [hforward, Option.ne_none_iff_exists']
  constructor
  · exact fun h => ⟨⟨year, h⟩, hsome h⟩
  · rintro ⟨⟨y, hy⟩, hleast⟩
    rw [hy, (hsome hy).unique hleast]

lemma primeYear?_congr (h : ∀ r, ¬ r.2 < r.1 → (r ∈ ranges' ↔ r ∈ ranges)) :
    primeYear? ranges' = primeYear? ranges := by
  refine Option.ext fun year => ?_
  have hforward : (∃ r ∈ ranges', ¬ r.2 < r.1) ↔ ∃ r ∈ ranges, ¬ r.2 < r.1 :=
    exists_congr fun r => and_congr_left (h r)
  rw [primeYear?_eq_some_iff_isLeast, primeYear?_eq_some_iff_isLeast, score_congr h, hforward]

/-- There is no prime year of ranges that all end before they start, and otherwise it is the
earliest year with the highest score. The counts that the scores are made of take nothing from less,
and they are numbers of months. Only the ranges that do not end before they start count, in any
order and any number of times. -/
theorem primeYear?_isLeast (ranges : List (Date × Date)) :
    (primeYear? ranges = none ↔ ∀ r ∈ ranges, r.2 < r.1) ∧
    (∀ year, primeYear? ranges = some year ↔ (∃ r ∈ ranges, ¬ r.2 < r.1) ∧
      IsLeast {y | ∀ y', score ranges y' ≤ score ranges y} year) ∧
    (∀ r year count, (year, count) ∈ coverage r →
      monthFrom r.1 year ≤ monthTo r.2 year ∧
        count = monthTo r.2 year - monthFrom r.1 year + 1 ∧ 1 ≤ count ∧ count ≤ 12) ∧
    ∀ ranges', (∀ r, ¬ r.2 < r.1 → (r ∈ ranges' ↔ r ∈ ranges)) →
      primeYear? ranges' = primeYear? ranges := by
  exact ⟨primeYear?_eq_none_iff, fun _ => primeYear?_eq_some_iff_isLeast,
    fun _ _ _ => count_of_mem_coverage, fun _ => primeYear?_congr⟩

/-- Four months of one year are more than the most that a range touches of another one. The same
ranges in another order, with one of them twice and with a reversed one, have the same prime year. -/
theorem primeYear?_isLeast_spring :
    let autumn : Date × Date := (⟨2021, 10, 1, by decide⟩, ⟨2022, 3, 31, by decide⟩)
    let may : Date × Date := (⟨2022, 5, 1, by decide⟩, ⟨2022, 6, 30, by decide⟩)
    let spring : Date × Date := (⟨2023, 1, 1, by decide⟩, ⟨2023, 4, 1, by decide⟩)
    IsLeast {y | ∀ y', score [autumn, may, spring] y' ≤ score [autumn, may, spring] y} 2023 ∧
      monthFrom spring.1 2023 ≤ monthTo spring.2 2023 ∧
      primeYear? [spring, (may.2, may.1), autumn, spring, may] =
        primeYear? [autumn, may, spring] := by
  intro autumn may spring
  obtain ⟨-, hsome, hcount, hcongr⟩ := primeYear?_isLeast [autumn, may, spring]
  have hreversed : may.1 < may.2 := by decide
  refine ⟨((hsome 2023).1 (by decide +kernel)).2, (hcount spring 2023 4 (by decide +kernel)).1, ?_⟩
  refine hcongr _ fun r hr => ?_
  have hne : r ≠ (may.2, may.1) := by
    rintro rfl
    exact hr hreversed
  simp only [List.mem_cons, List.not_mem_nil, or_false, hne, false_or]
  tauto

end primeYear

/-! ### A record of the years

Instead of all counts, only the highest one of each year can be kept, in a map that is gone through
from the earliest year on. -/

/-- Keeps the higher one of a count and the count that is kept for its year. -/
def keep (record : Std.TreeMap Int Nat) (c : Int × Nat) : Std.TreeMap Int Nat :=
  record.insert c.1 (max (record.getD c.1 0) c.2)

def recordOf (ranges : List (Date × Date)) : Std.TreeMap Int Nat :=
  ranges.foldl (fun record range => (coverage range).foldl keep record) ∅

/-- Goes on to a later year only if its count is higher. -/
def firstBest (best : Option (Int × Nat)) (c : Int × Nat) : Option (Int × Nat) :=
  match best with
  | some top => if c.2 ≤ top.2 then some top else some c
  | none => some c

def recordYear? (record : Std.TreeMap Int Nat) : Option Int :=
  (record.toList.foldl firstBest none).map Prod.fst

section record

variable {record : Std.TreeMap Int Nat} {ranges : List (Date × Date)} {c : Int × Nat}

lemma getElem?_keep (year : Int) :
    (keep record c)[year]? = if c.1 = year then some (max (record.getD c.1 0) c.2)
      else record[year]? := by
  simp only [keep, Std.TreeMap.getElem?_insert, Std.LawfulEqCmp.compare_eq_iff_eq]

/-- A record of counts holds some of them, and for each of them one that is not lower. -/
structure IsRecordOf (cs : List (Int × Nat)) (record : Std.TreeMap Int Nat) : Prop where
  subset : ∀ year count, record[year]? = some count → (year, count) ∈ cs
  exists_le : ∀ c ∈ cs, ∃ count, record[c.1]? = some count ∧ c.2 ≤ count

lemma IsRecordOf.keep {cs : List (Int × Nat)} (h : IsRecordOf cs record) (c : Int × Nat) :
    IsRecordOf (cs ++ [c]) (keep record c) := by
  constructor
  · intro year count hcount
    rw [getElem?_keep] at hcount
    split_ifs at hcount with hyear
    · cases hcount
      subst hyear
      rw [Std.TreeMap.getD_eq_getD_getElem?]
      cases hkept : record[c.1]? with
      | none => simp
      | some kept =>
        rcases le_total kept c.2 with hle | hle
        · simp [hle]
        · simp [hle, h.subset _ _ hkept]
    · exact List.mem_append_left _ (h.subset _ _ hcount)
  · intro d hd
    rw [getElem?_keep]
    split_ifs with hyear
    · refine ⟨_, rfl, ?_⟩
      rcases List.mem_append.1 hd with hd | hd
      · obtain ⟨count, hcount, hle⟩ := h.exists_le d hd
        rw [Std.TreeMap.getD_eq_getD_getElem?, hyear, hcount]
        exact hle.trans (le_max_left _ _)
      · rw [List.mem_singleton.1 hd]
        exact le_max_right _ _
    · rcases List.mem_append.1 hd with hd | hd
      · exact h.exists_le d hd
      · rw [List.mem_singleton.1 hd] at hyear
        exact absurd rfl hyear

lemma isRecordOf_foldl_keep (cs : List (Int × Nat)) : IsRecordOf cs (cs.foldl keep ∅) := by
  induction cs using List.reverseRecOn with
  | nil => exact ⟨by simp, by simp⟩
  | append_singleton cs c ih =>
    rw [List.foldl_concat]
    exact ih.keep c

lemma isRecordOf_recordOf (ranges : List (Date × Date)) :
    IsRecordOf (ranges.flatMap coverage) (recordOf ranges) := by
  rw [recordOf, ← List.foldl_flatMap]
  exact isRecordOf_foldl_keep _

lemma IsRecordOf.isBest {cs : List (Int × Nat)} (h : IsRecordOf cs record)
    (hc : IsBest record.toList c) : IsBest cs c := by
  refine ⟨h.subset _ _ (Std.TreeMap.mem_toList_iff_getElem?_eq_some.1 hc.mem), fun d hd => ?_⟩
  obtain ⟨count, hcount, hle⟩ := h.exists_le d hd
  have hbest := hc.noWorse _ (Std.TreeMap.mem_toList_iff_getElem?_eq_some.2 hcount)
  unfold NoWorse at *
  dsimp only at hbest
  omega

/-- Among years in order, the first best one is the better one of any two. -/
lemma foldl_firstBest {first : Int × Nat} {others : List (Int × Nat)}
    (h : (first :: others).Pairwise fun a b => a.1 < b.1) :
    others.foldl firstBest (some first) = some (others.foldl better first) := by
  induction others generalizing first with
  | nil => rfl
  | cons c others ih =>
    obtain ⟨hfirst, hothers⟩ := List.pairwise_cons.1 h
    have hlt : first.1 < c.1 := hfirst c List.mem_cons_self
    have hstep : firstBest (some first) c = some (better first c) := by
      unfold firstBest better
      dsimp only
      split_ifs <;> first | rfl | omega
    rw [List.foldl_cons, List.foldl_cons, hstep]
    refine ih (List.pairwise_cons.2 ⟨fun d hd => ?_, (List.pairwise_cons.1 hothers).2⟩)
    rcases better_eq_or first c with hbetter | hbetter <;> rw [hbetter]
    · exact hfirst d (List.mem_cons_of_mem _ hd)
    · exact (List.pairwise_cons.1 hothers).1 d hd

/-- The record of ranges has their prime year. -/
theorem recordYear?_recordOf (ranges : List (Date × Date)) :
    recordYear? (recordOf ranges) = primeYear? ranges := by
  have hrecord := isRecordOf_recordOf ranges
  have hordered : (recordOf ranges).toList.Pairwise fun a b => a.1 < b.1 :=
    Std.TreeMap.ordered_keys_toList.imp fun h => Int.compare_eq_lt.1 h
  unfold recordYear?
  cases hyears : (recordOf ranges).toList with
  | nil =>
    have hnil : ranges.flatMap coverage = [] := by
      refine List.eq_nil_iff_forall_not_mem.2 fun c hc => ?_
      obtain ⟨count, hcount, -⟩ := hrecord.exists_le c hc
      rw [← Std.TreeMap.mem_toList_iff_getElem?_eq_some, hyears] at hcount
      cases hcount
    exact (primeYear?_eq_none_iff.2 (flatMap_coverage_eq_nil_iff.1 hnil)).symm
  | cons first others =>
    rw [hyears] at hordered
    have hbest : IsBest (recordOf ranges).toList (others.foldl better first) :=
      hyears ▸ isBest_foldl_better first others
    rw [List.foldl_cons, firstBest, foldl_firstBest hordered]
    exact (primeYear?_eq_some_iff.2 ⟨_, hrecord.isBest hbest⟩).symm

end record

end Calendar

end Timeline
