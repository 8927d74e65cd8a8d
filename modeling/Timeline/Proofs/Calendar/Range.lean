import Timeline.Proofs.Calendar.Months

/-! # The months of the calendar

The months of the supported years are numbered without gaps, so a date can be shifted exactly if the
number of its new month is one of theirs. All numbers that a shift computes on the way fit a word of
32 bits. -/
namespace Timeline
open Calendar

namespace Calendar

/-- The number of the January of the first year. -/
def firstMonth : Int := firstYear * 12

/-- The number of the December of the last year. -/
def lastMonth : Int := lastYear * 12 + 11

end Calendar

namespace Date

lemma hasYear_iff {year : Int} : hasYear year = true ↔ firstYear ≤ year ∧ year ≤ lastYear := by
  simp [hasYear]

lemma monthNumber_mem (d : Date) : firstMonth ≤ d.monthNumber ∧ d.monthNumber ≤ lastMonth := by
  obtain ⟨hm, hm', -, -⟩ := d.bounds
  obtain ⟨hfirst, hlast⟩ := hasYear_iff.1 d.valid.1
  unfold monthNumber firstMonth lastMonth
  omega

lemma lt_irrefl (d : Date) : ¬ d < d := by
  rw [lt_iff_monthNumber]
  omega

lemma monthNumber_mono {a b : Date} (h : ¬ b < a) : a.monthNumber ≤ b.monthNumber := by
  by_contra hlt
  exact h (lt_iff_monthNumber.2 (.inl (Int.not_le.1 hlt)))

end Date

lemma Moment.monthNumber_mono {a b : Moment} (h : a ≤ b) :
    a.date.monthNumber ≤ b.date.monthNumber :=
  Date.monthNumber_mono fun hlt => h (.inl hlt)

namespace MonthShift

variable {s : MonthShift}

/-- A date can be shifted exactly if its new month is one of the calendar. -/
theorem exists_date?_iff {d : Date} : (∃ d', s.date? d = some d') ↔
    firstMonth ≤ d.monthNumber + s.months ∧ d.monthNumber + s.months ≤ lastMonth := by
  constructor
  · rintro ⟨d', hd'⟩
    rw [← (date?_eq_some_iff.1 hd').1]
    exact d'.monthNumber_mem
  · rintro ⟨hfirst, hlast⟩
    unfold date?
    dsimp only
    generalize d.monthNumber + s.months = total at hfirst hlast
    have hyear : hasYear (total / 12) = true := by
      rw [Date.hasYear_iff]
      unfold firstMonth at hfirst
      unfold lastMonth at hlast
      omega
    have hlength := @monthLength_bounds (total / 12) ((total % 12).toNat + 1) (by omega)
    obtain ⟨-, -, hday, -⟩ := d.bounds
    rw [daysInMonth_eq hyear (by omega) (by omega)]
    refine ⟨_, dif_pos ⟨hyear, by omega, by omega, ?_, ?_⟩⟩
    · split <;> omega
    · split <;> omega

lemma exists_moment?_iff {m : Moment} : (∃ m', s.moment? m = some m') ↔
    firstMonth ≤ m.date.monthNumber + s.months ∧
      m.date.monthNumber + s.months ≤ lastMonth := by
  rw [← exists_date?_iff]
  unfold moment?
  simp only [Option.map_eq_some_iff]
  exact ⟨fun ⟨_, d, hd, _⟩ => ⟨d, hd⟩, fun ⟨d, hd⟩ => ⟨_, d, hd, rfl⟩⟩

end MonthShift

namespace Calendar

/-- Does a number fit a signed word of 32 bits? -/
def IsWord (n : Int) : Prop := -2147483648 ≤ n ∧ n ≤ 2147483647

instance (n : Int) : Decidable (IsWord n) := inferInstanceAs (Decidable (_ ∧ _))

/-- The result of arithmetic in words, unless it overflows. -/
def word? (n : Int) : Option Int := if IsWord n then some n else none

/-- The months from a date to another, with every result in a word. -/
def wordMonths? (source target : Date) : Option Int := do
  let years ← word? (target.year - source.year)
  let yearMonths ← word? (years * 12)
  let months ← word? ((target.month : Int) - source.month)
  word? (yearMonths + months)

/-- The number of the month some months after that of a date, with every result in a word. -/
def wordTotal? (months : Int) (d : Date) : Option Int := do
  let yearMonths ← word? (d.year * 12)
  let monthNumber ← word? (yearMonths + (d.month - 1 : Nat))
  word? (monthNumber + months)

lemma word?_eq {n : Int} (h : IsWord n) : word? n = some n := if_pos h

lemma word?_bind {n : Int} (h : IsWord n) (next : Int → Option Int) :
    (word? n >>= next) = next n := by
  rw [word?_eq h]
  rfl

end Calendar

namespace MonthShift

variable (source target : Moment)

lemma isWord_months : IsWord (between source target).months := by
  have hsource := source.date.monthNumber_mem
  have htarget := target.date.monthNumber_mem
  unfold between IsWord
  dsimp only
  unfold firstMonth lastMonth firstYear lastYear at *
  omega

/-- The months of a shift are computed without an overflow. -/
theorem wordMonths?_eq :
    wordMonths? source.date target.date = some (between source target).months := by
  obtain ⟨hs, hs', -, -⟩ := source.date.bounds
  obtain ⟨ht, ht', -, -⟩ := target.date.bounds
  have hsource : -262143 ≤ source.date.year ∧ source.date.year ≤ 262142 :=
    Date.hasYear_iff.1 source.date.valid.1
  have htarget : -262143 ≤ target.date.year ∧ target.date.year ≤ 262142 :=
    Date.hasYear_iff.1 target.date.valid.1
  have htotal : (target.date.year - source.date.year) * 12 +
      ((target.date.month : Int) - source.date.month) = (between source target).months := by
    unfold between Date.monthNumber
    dsimp only
    omega
  unfold wordMonths?
  rw [word?_bind (by unfold IsWord; omega), word?_bind (by unfold IsWord; omega),
    word?_bind (by unfold IsWord; omega), htotal, word?_eq (isWord_months source target)]

/-- The new month of a date is computed without an overflow. -/
theorem wordTotal?_eq (d : Date) : wordTotal? (between source target).months d =
    some (d.monthNumber + (between source target).months) := by
  obtain ⟨hd, hd', -, -⟩ := d.bounds
  have hnumber := d.monthNumber_mem
  have hsource := source.date.monthNumber_mem
  have htarget := target.date.monthNumber_mem
  have hmonth : d.year * 12 + (d.month - 1 : Nat) = d.monthNumber := rfl
  unfold firstMonth lastMonth firstYear lastYear at *
  unfold wordTotal?
  rw [word?_bind (by unfold IsWord; omega), hmonth, word?_bind (by unfold IsWord; omega),
    word?_eq]
  unfold between IsWord
  dsimp only
  omega

end MonthShift

end Timeline
