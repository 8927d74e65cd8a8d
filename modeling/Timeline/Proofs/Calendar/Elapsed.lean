import Timeline.Proofs.Calendar.Order

/-! # Time that has passed

Dates are numbered by their days in the order of the calendar. So moments outside of leap seconds
are ordered as on a clock that counts nanoseconds, and the time between two of them is what that
clock has counted. -/
namespace Timeline
open Calendar

namespace Calendar

variable {year : Int} {month : Nat}

lemma daysBeforeMonth_mono {month' : Nat} (h : month ≤ month') :
    daysBeforeMonth year month ≤ daysBeforeMonth year month' := by
  unfold daysBeforeMonth
  split_ifs <;> omega

lemma daysBeforeMonth_succ (year : Int) (month : Nat) :
    daysBeforeMonth year (month + 1) = daysBeforeMonth year month + monthLength year month :=
  (Nat.add_sub_cancel' (daysBeforeMonth_mono (Nat.le_succ month))).symm

/-- The months of a year take as many days as there are up to the next year. -/
lemma daysBeforeYear_succ (year : Int) :
    daysBeforeYear year + daysBeforeMonth year 13 = daysBeforeYear (year + 1) := by
  have hall : daysBeforeMonth year 13 = if hasLeapDay year then 366 else 365 := by
    rw [daysBeforeMonth, if_neg (by decide)]
    split_ifs <;> rfl
  rw [hall]
  unfold daysBeforeYear
  simp only [hasLeapDay, Bool.and_eq_true, beq_iff_eq, Bool.or_eq_true, bne_iff_ne]
  split_ifs <;> omega

lemma daysBeforeMonth_le (h : month ≤ 13) :
    daysBeforeYear year + daysBeforeMonth year month ≤ daysBeforeYear (year + 1) := by
  have hmono := @daysBeforeMonth_mono year month 13 h
  rw [← daysBeforeYear_succ year]
  omega

end Calendar

namespace Date

theorem dayNumber_lt_of_lt {a b : Date} (h : a < b) : a.dayNumber < b.dayNumber := by
  obtain ⟨-, ham, ham', had, had'⟩ := a.valid
  obtain ⟨-, hbm, hbm', hbd, -⟩ := b.valid
  have hmonth := daysBeforeMonth_succ a.year a.month
  unfold dayNumber
  rcases h with h | ⟨h, h' | ⟨h', h''⟩⟩
  · have hfit := @daysBeforeMonth_le a.year (a.month + 1) (by omega)
    have hyears : daysBeforeYear (a.year + 1) ≤ daysBeforeYear b.year := by
      unfold daysBeforeYear
      omega
    omega
  · have hmono := @daysBeforeMonth_mono a.year _ b.month (show a.month + 1 ≤ b.month from h')
    rw [← h]
    omega
  · rw [← h, ← h']
    omega

end Date

namespace Moment

/-- Nanoseconds from the origin, on a clock that does not know leap seconds. -/
def nanos (m : Moment) : Int :=
  (m.date.dayNumber * secondsPerDay + m.time.secondOfDay) * nanosPerSecond + m.time.nano

variable {a b : Moment}

lemma nano_lt (h : a.time.isLeap = false) : a.time.nano < nanosPerSecond := by
  simpa [TimeOfDay.isLeap] using h

theorem nanos_lt_of_lt (ha : a.time.isLeap = false) (h : a < b) : a.nanos < b.nanos := by
  have ha := nano_lt ha
  obtain ⟨ha₁, ha₂, ha₃, -⟩ := a.time.bounds
  unfold nanos TimeOfDay.secondOfDay secondsPerDay nanosPerSecond at *
  rcases h with h | ⟨h, h'⟩
  · have hdays := Date.dayNumber_lt_of_lt h
    omega
  · rw [h]
    change a.time.secondOfDay < b.time.secondOfDay ∨ _ at h'
    unfold TimeOfDay.secondOfDay at h'
    omega

lemma nanos_le_of_le (ha : a.time.isLeap = false) (h : a ≤ b) : a.nanos ≤ b.nanos := by
  rcases lt_or_eq_of_le h with hlt | rfl
  · exact Int.le_of_lt (nanos_lt_of_lt ha hlt)
  · exact Int.le_refl _

/-- Outside of leap seconds the time between two moments is what the clock counts. -/
theorem nanos_durationTo (ha : a.time.isLeap = false) (hb : b.time.isLeap = false) :
    (a.durationTo b).nanos = b.nanos - a.nanos := by
  have hday : a.time.nanosUntil b.time =
      ((b.time.secondOfDay : Int) - a.time.secondOfDay) * nanosPerSecond +
        (b.time.nano - a.time.nano) := by
    simp [TimeOfDay.nanosUntil, ha, hb]
  unfold durationTo nanos
  dsimp only
  rw [hday]
  unfold secondsPerDay nanosPerSecond
  omega

lemma durationTo_self (m : Moment) : m.durationTo m = ⟨0⟩ := by
  simp [durationTo, TimeOfDay.nanosUntil]

end Moment

end Timeline
