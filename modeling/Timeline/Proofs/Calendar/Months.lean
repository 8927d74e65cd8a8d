import Mathlib.Tactic.IntervalCases
import Timeline.Calendar.Shift
import Timeline.Proofs.Calendar.Order

/-! # Months of shifted dates

A date is given by the number of its month and its day. A shift adds to the number of the month; the
day stays what it is as far as the month is long enough, or becomes the last one. Hence shifts keep
the order of dates, and two shifts one after another do what one of them does, as long as no day is
lost on the way. -/
namespace Timeline
open Calendar

/-- The table gives the lengths of the months of the calendar. -/
theorem Calendar.daysInMonth_eq {year : Int} {month : Nat} (hyear : hasYear year = true)
    (h : 1 ≤ month) (h' : month ≤ 12) : daysInMonth year month = monthLength year month := by
  unfold daysInMonth monthLength daysBeforeMonth isLeapYear
  rw [hyear, Bool.true_and]
  generalize hasLeapDay year = leap
  interval_cases month <;> cases leap <;> rfl

namespace Date

/-- The number of the last day that the calendar has in the month of a date. -/
def lastDay (d : Date) : Nat := monthLength d.year d.month

/-- The last day of the month of a date. -/
def monthEnd (d : Date) : Date where
  year := d.year
  month := d.month
  day := d.lastDay
  valid :=
    ⟨d.valid.1, d.valid.2.1, d.valid.2.2.1,
      Nat.le_trans (by decide) (monthLength_bounds d.valid.2.1).1, Nat.le_refl _⟩

lemma daysInMonth_eq_lastDay (d : Date) : daysInMonth d.year d.month = d.lastDay :=
  Calendar.daysInMonth_eq d.valid.1 d.valid.2.1 d.valid.2.2.1

lemma isMonthEnd_iff {d : Date} : d.isMonthEnd = true ↔ d.day = d.lastDay := by
  rw [isMonthEnd, daysInMonth_eq_lastDay, beq_iff_eq]

lemma day_le_lastDay (d : Date) : d.day ≤ d.lastDay := d.valid.2.2.2.2

lemma twentyEight_le_lastDay (d : Date) : 28 ≤ d.lastDay := (monthLength_bounds d.valid.2.1).1

lemma year_of_monthNumber (d : Date) : d.monthNumber / 12 = d.year := by
  obtain ⟨hm, hm', -, -⟩ := d.bounds
  unfold monthNumber
  omega

lemma month_of_monthNumber (d : Date) : (d.monthNumber % 12).toNat + 1 = d.month := by
  obtain ⟨hm, hm', -, -⟩ := d.bounds
  unfold monthNumber
  omega

variable {a b : Date}

lemma lastDay_eq (h : a.monthNumber = b.monthNumber) : a.lastDay = b.lastDay := by
  rw [lastDay, lastDay, ← year_of_monthNumber, ← month_of_monthNumber, h, year_of_monthNumber,
    month_of_monthNumber]

lemma eq_of_monthNumber_eq (h : a.monthNumber = b.monthNumber) (hday : a.day = b.day) : a = b := by
  have hyear : a.year = b.year := by rw [← year_of_monthNumber, h, year_of_monthNumber]
  have hmonth : a.month = b.month := by rw [← month_of_monthNumber, h, month_of_monthNumber]
  cases a
  cases b
  simp_all

lemma lt_iff_monthNumber : a < b ↔
    a.monthNumber < b.monthNumber ∨ a.monthNumber = b.monthNumber ∧ a.day < b.day := by
  obtain ⟨ha, ha', -, -⟩ := a.bounds
  obtain ⟨hb, hb', -, -⟩ := b.bounds
  change a.year < b.year ∨ _ ∧ (_ ∨ _ ∧ _) ↔ _
  unfold monthNumber
  omega

lemma ofYMD?_eq_some_iff {year : Int} {month day : Nat} {d : Date} :
    ofYMD? year month day = some d ↔ d.year = year ∧ d.month = month ∧ d.day = day := by
  unfold ofYMD?
  constructor
  · intro h
    split at h <;> cases h
    exact ⟨rfl, rfl, rfl⟩
  · rintro ⟨rfl, rfl, rfl⟩
    exact dif_pos d.valid

lemma isMonthEnd_monthEnd (d : Date) : d.monthEnd.isMonthEnd = true := isMonthEnd_iff.2 rfl

lemma monthEnd_eq_self {d : Date} (h : d.isMonthEnd = true) : d.monthEnd = d :=
  eq_of_monthNumber_eq rfl (isMonthEnd_iff.1 h).symm

end Date

namespace MonthShift

variable {s t u : MonthShift}

/-- The date that a date is shifted to, by its month and its day. -/
theorem date?_eq_some_iff {d d' : Date} :
    s.date? d = some d' ↔ d'.monthNumber = d.monthNumber + s.months ∧
      d'.day = if s.toMonthEnd then d'.lastDay else min d.day d'.lastDay := by
  unfold date?
  dsimp only
  rw [Date.ofYMD?_eq_some_iff]
  constructor
  · rintro ⟨hyear, hmonth, hday⟩
    rw [← hmonth, ← hyear, Date.daysInMonth_eq_lastDay] at hday
    refine ⟨?_, hday⟩
    unfold Date.monthNumber at hyear hmonth ⊢
    omega
  · rintro ⟨hmonth, hday⟩
    rw [← hmonth, Date.year_of_monthNumber, Date.month_of_monthNumber,
      Date.daysInMonth_eq_lastDay]
    exact ⟨rfl, rfl, hday⟩

/-- A date that is shifted twice is where one shift takes it, if both shifts that end there treat
its day alike: they go to the last day, or the first shift has kept the day. -/
lemma date?_trans {d d' : Date} (h : s.date? d = some d') (hmonths : u.months = s.months + t.months)
    (hend : t.toMonthEnd = u.toMonthEnd) (hday : t.toMonthEnd = true ∨ d'.day = d.day) :
    t.date? d' = u.date? d := by
  obtain ⟨hmonth, -⟩ := date?_eq_some_iff.1 h
  refine Option.ext fun e => ?_
  rw [date?_eq_some_iff, date?_eq_some_iff, hmonth, hmonths, Int.add_assoc, ← hend]
  rcases hday with hday | hday
  · rw [hday, if_pos rfl, if_pos rfl]
  · rw [hday]

lemma date?_of_months_eq_zero (h : s.months = 0) (d : Date) :
    s.date? d = some (if s.toMonthEnd then d.monthEnd else d) := by
  rw [date?_eq_some_iff, h, Int.add_zero]
  split
  · exact ⟨rfl, rfl⟩
  · exact ⟨rfl, (Nat.min_eq_left d.day_le_lastDay).symm⟩

/-- The later one of two dates is not shifted before the earlier one. -/
lemma date?_mono {a b a' b' : Date} (h : ¬ b < a) (ha : s.date? a = some a')
    (hb : s.date? b = some b') : ¬ b' < a' := by
  obtain ⟨hamonth, haday⟩ := date?_eq_some_iff.1 ha
  obtain ⟨hbmonth, hbday⟩ := date?_eq_some_iff.1 hb
  have hlast : a'.monthNumber = b'.monthNumber → a'.lastDay = b'.lastDay := Date.lastDay_eq
  rw [Date.lt_iff_monthNumber] at h ⊢
  split_ifs at haday hbday <;> omega

section
variable {m m' : Moment}

lemma moment?_eq_some_iff :
    s.moment? m = some m' ↔ s.date? m.date = some m'.date ∧ m'.time = s.time := by
  rw [moment?, Option.map_eq_some_iff]
  constructor
  · rintro ⟨date, hdate, rfl⟩
    exact ⟨hdate, rfl⟩
  · rintro ⟨hdate, htime⟩
    exact ⟨m'.date, hdate, congrArg (Moment.mk m'.date) htime.symm⟩

lemma moment?_trans (h : s.moment? m = some m') (hmonths : u.months = s.months + t.months)
    (hend : t.toMonthEnd = u.toMonthEnd) (hday : t.toMonthEnd = true ∨ m'.date.day = m.date.day)
    (htime : t.time = u.time) : t.moment? m' = u.moment? m := by
  rw [moment?, moment?, date?_trans (moment?_eq_some_iff.1 h).1 hmonths hend hday, htime]

lemma moment?_mono {a b a' b' : Moment} (h : a ≤ b) (ha : s.moment? a = some a')
    (hb : s.moment? b = some b') : a' ≤ b' := by
  obtain ⟨hadate, hatime⟩ := moment?_eq_some_iff.1 ha
  obtain ⟨hbdate, hbtime⟩ := moment?_eq_some_iff.1 hb
  have hdate : ¬ b'.date < a'.date := date?_mono (fun hlt => h (.inl hlt)) hadate hbdate
  rintro (hlt | ⟨-, hlt⟩)
  · exact hdate hlt
  · rw [hatime, hbtime] at hlt
    change s.time.secondOfDay < _ ∨ _ at hlt
    omega

end

/-- The shift to a moment takes the moment that it starts from into its month. -/
lemma monthNumber_of_between {source target m : Moment}
    (h : (between source target).moment? source = some m) :
    m.date.monthNumber = target.date.monthNumber := by
  have hmonth := (date?_eq_some_iff.1 (moment?_eq_some_iff.1 h).1).1
  rw [hmonth]
  change _ + (_ - _) = _
  omega

end MonthShift

end Timeline
