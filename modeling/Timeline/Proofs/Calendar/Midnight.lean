import Timeline.Proofs.Calendar.Elapsed

/-! # Leap seconds at midnight

A leap second counts between two times of one day, but not between days. So time passes to every
later moment, except from the leap second at the end of a day to the first second of the next one,
where no more may have passed than is lost of the leap second. -/
namespace Timeline
open Calendar

namespace TimeOfDay

variable {a b : TimeOfDay}

/-- Only the last second of a minute can be a leap second. -/
lemma secondOfDay_of_isLeap (h : a.isLeap = true) : 59 ≤ a.secondOfDay := by
  have hnano : nanosPerSecond ≤ a.nano := of_decide_eq_true h
  obtain ⟨-, -, -, hvalid⟩ := a.valid
  unfold secondOfDay
  omega

lemma nanosUntil_pos (h : a < b) : 0 < a.nanosUntil b := by
  obtain ⟨-, -, -, ha⟩ := a.bounds
  change a.secondOfDay < b.secondOfDay ∨ _ at h
  unfold nanosUntil isLeap nanosPerSecond at *
  simp only [decide_eq_true_eq]
  split_ifs <;> omega

lemma nanosUntil_swap (a b : TimeOfDay) : b.nanosUntil a = -a.nanosUntil b := by
  unfold nanosUntil nanosPerSecond
  split_ifs <;> dsimp only <;> omega

/-- At least the seconds between two times of a day are counted, but for one if the time that is
counted back from is in a leap second. -/
lemma le_nanosUntil (a b : TimeOfDay) :
    ((b.secondOfDay : Int) - a.secondOfDay) * nanosPerSecond + (b.nano - a.nano) ≤
        a.nanosUntil b ∨
      59 ≤ b.secondOfDay ∧ ((b.secondOfDay : Int) - a.secondOfDay - 1) * nanosPerSecond +
        (b.nano - a.nano) ≤ a.nanosUntil b := by
  unfold nanosUntil nanosPerSecond
  split_ifs with h h' <;> dsimp only
  · left
    omega
  · right
    exact ⟨secondOfDay_of_isLeap h'.2, by omega⟩
  · left
    omega

end TimeOfDay

namespace Moment

variable {a b : Moment}

/-- One moment is in the leap second at the end of its day. The other one is in the first second of
the next day, no further into it than the first one is into the leap second. -/
structure LeapsMidnight (a b : Moment) : Prop where
  lastSecond : a.time.secondOfDay + 1 = secondsPerDay
  nextDay : b.date.dayNumber = a.date.dayNumber + 1
  firstSecond : b.time.secondOfDay = 0
  passed : nanosPerSecond + b.time.nano ≤ a.time.nano

instance (a b : Moment) : Decidable (a.LeapsMidnight b) :=
  decidable_of_iff (_ ∧ _ ∧ _ ∧ _) ⟨fun ⟨h, h', h'', h'''⟩ => ⟨h, h', h'', h'''⟩,
    fun ⟨h, h', h'', h'''⟩ => ⟨h, h', h'', h'''⟩⟩

lemma LeapsMidnight.lt (h : a.LeapsMidnight b) : a < b := by
  have hday := h.nextDay
  rcases lt_trichotomy a b with hlt | rfl | hlt
  · exact hlt
  · omega
  · rcases hlt with hlt | ⟨heq, -⟩
    · have := Date.dayNumber_lt_of_lt hlt
      omega
    · rw [heq] at hday
      omega

/-- Nothing makes up for the part of the leap second that has passed. -/
lemma LeapsMidnight.nanos_durationTo (h : a.LeapsMidnight b) :
    (a.durationTo b).nanos = nanosPerSecond + b.time.nano - a.time.nano := by
  obtain ⟨hlast, hday, hfirst, -⟩ := h
  have hleap : b.time.isLeap = false := by
    by_contra hb
    have := TimeOfDay.secondOfDay_of_isLeap (Bool.not_eq_false _ ▸ hb)
    omega
  have htime : a.time.nanosUntil b.time =
      -a.time.secondOfDay * nanosPerSecond + (b.time.nano - a.time.nano) := by
    simp [TimeOfDay.nanosUntil, hleap, hfirst]
  unfold durationTo
  dsimp only
  rw [htime, hday]
  unfold secondsPerDay nanosPerSecond at *
  omega

lemma nanos_durationTo_swap (a b : Moment) : (b.durationTo a).nanos = -(a.durationTo b).nanos := by
  unfold durationTo
  dsimp only
  rw [TimeOfDay.nanosUntil_swap]
  unfold secondsPerDay nanosPerSecond
  omega

lemma durationTo_pos_of_date_lt (h : a.date < b.date) (hleap : ¬ a.LeapsMidnight b) :
    0 < (a.durationTo b).nanos := by
  by_contra hnanos
  have hday := Date.dayNumber_lt_of_lt h
  obtain ⟨ha₁, ha₂, ha₃, ha₄⟩ := a.time.bounds
  have ha : a.time.secondOfDay < 86400 := by
    unfold TimeOfDay.secondOfDay
    omega
  have hpassed := a.time.le_nanosUntil b.time
  unfold durationTo at hnanos
  unfold secondsPerDay nanosPerSecond at *
  dsimp only at hnanos
  -- the times of day take back the day between them: the last second from the first one
  refine hleap ⟨?lastSecond, ?nextDay, ?firstSecond, ?passed⟩
  case lastSecond =>
    unfold secondsPerDay
    omega
  case nextDay => omega
  case firstSecond => omega
  case passed =>
    unfold nanosPerSecond
    omega

/-- Unless a leap second at midnight is in the way, time passes to a later moment. -/
theorem durationTo_pos (h : a < b) (hleap : ¬ a.LeapsMidnight b) : 0 < (a.durationTo b).nanos := by
  rcases h with hdate | ⟨hdate, htime⟩
  · exact durationTo_pos_of_date_lt hdate hleap
  · have := TimeOfDay.nanosUntil_pos htime
    simpa [durationTo, hdate] using this

theorem durationTo_nonneg (h : a ≤ b) (hleap : ¬ a.LeapsMidnight b) :
    0 ≤ (a.durationTo b).nanos := by
  rcases lt_or_eq_of_le h with hlt | rfl
  · exact Int.le_of_lt (durationTo_pos hlt hleap)
  · simp [durationTo_self]

theorem durationTo_eq_zero_iff (h : a ≤ b) (hleap : ¬ a.LeapsMidnight b) :
    (a.durationTo b).nanos = 0 ↔ a = b := by
  refine ⟨fun hzero => ?_, fun heq => by rw [heq, durationTo_self]⟩
  by_contra hne
  have := durationTo_pos (lt_of_le_of_ne h hne) hleap
  omega

/-- The order of two moments and the time between them agree on which one is later. -/
theorem lt_iff_durationTo_pos (hab : ¬ a.LeapsMidnight b) (hba : ¬ b.LeapsMidnight a) :
    a < b ↔ 0 < (a.durationTo b).nanos := by
  refine ⟨fun h => durationTo_pos h hab, fun hpos => ?_⟩
  by_contra hle
  have := durationTo_nonneg (not_lt.1 hle) hba
  rw [nanos_durationTo_swap] at this
  omega

end Moment

end Timeline
