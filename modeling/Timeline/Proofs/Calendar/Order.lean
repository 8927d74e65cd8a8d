import Mathlib.Order.Defs.LinearOrder
import Mathlib.Tactic.Common
import Timeline.Calendar.Moment

/-! # The order of moments

A moment is numbered by its date and its time of day, so that earlier moments have smaller numbers
and different moments have different ones. Hence the order of moments is linear. -/
namespace Timeline
open Calendar

lemma Calendar.monthLength_bounds {year : Int} {month : Nat} (h : 1 ≤ month) :
    28 ≤ monthLength year month ∧ monthLength year month ≤ 31 := by
  unfold monthLength daysBeforeMonth
  split_ifs <;> omega

lemma Date.bounds (d : Date) : 1 ≤ d.month ∧ d.month ≤ 12 ∧ 1 ≤ d.day ∧ d.day ≤ 31 := by
  obtain ⟨_, hm, hm', hd, hd'⟩ := d.valid
  exact ⟨hm, hm', hd, Nat.le_trans hd' (monthLength_bounds hm).2⟩

lemma TimeOfDay.bounds (t : TimeOfDay) :
    t.hour < 24 ∧ t.minute < 60 ∧ t.second < 60 ∧ t.nano < 2 * nanosPerSecond := by
  obtain ⟨hh, hm, hs, hn⟩ := t.valid
  refine ⟨hh, hm, hs, ?_⟩
  rcases hn with hn | ⟨_, hn⟩
  · unfold nanosPerSecond at *
    omega
  · exact hn

namespace Moment

/-- The place of a moment in the order. Every minute has room for a leap second. -/
def rank (m : Moment) : Int :=
  (((m.date.year * 13 + m.date.month) * 32 + m.date.day) * 86400 + m.time.secondOfDay) *
    2000000000 + m.time.nano

lemma lt_iff_rank (a b : Moment) : a < b ↔ a.rank < b.rank := by
  obtain ⟨ha₁, ha₂, ha₃, ha₄⟩ := a.date.bounds
  obtain ⟨hb₁, hb₂, hb₃, hb₄⟩ := b.date.bounds
  obtain ⟨ha₅, ha₆, ha₇, ha₈⟩ := a.time.bounds
  obtain ⟨hb₅, hb₆, hb₇, hb₈⟩ := b.time.bounds
  have hdate : a.date = b.date ↔
      a.date.year = b.date.year ∧ a.date.month = b.date.month ∧ a.date.day = b.date.day := by
    rw [Date.mk.injEq]
  change (a.date.year < b.date.year ∨ _ ∧ (_ ∨ _)) ∨ a.date = b.date ∧ (_ ∨ _) ↔ _
  rw [hdate]
  unfold rank TimeOfDay.secondOfDay nanosPerSecond at *
  omega

lemma le_iff_rank (a b : Moment) : a ≤ b ↔ a.rank ≤ b.rank := by
  change ¬ b < a ↔ _
  rw [lt_iff_rank]
  omega

theorem rank_injective : Function.Injective rank := by
  intro a b h
  obtain ⟨ha₁, ha₂, ha₃, ha₄⟩ := a.date.bounds
  obtain ⟨hb₁, hb₂, hb₃, hb₄⟩ := b.date.bounds
  obtain ⟨ha₅, ha₆, ha₇, ha₈⟩ := a.time.bounds
  obtain ⟨hb₅, hb₆, hb₇, hb₈⟩ := b.time.bounds
  unfold rank TimeOfDay.secondOfDay nanosPerSecond at *
  rcases a with ⟨⟨ya, ma, da, _⟩, ⟨ha, na, sa, fa, _⟩⟩
  rcases b with ⟨⟨yb, mb, db, _⟩, ⟨hb, nb, sb, fb, _⟩⟩
  dsimp only at *
  have hy : ya = yb ∧ ma = mb ∧ da = db := by omega
  have ht : ha = hb ∧ na = nb ∧ sa = sb ∧ fa = fb := by omega
  obtain ⟨rfl, rfl, rfl⟩ := hy
  obtain ⟨rfl, rfl, rfl, rfl⟩ := ht
  rfl

instance : LinearOrder Moment where
  le_refl a := (le_iff_rank a a).2 (Int.le_refl _)
  le_trans a b c := by
    simp only [le_iff_rank]
    omega
  lt_iff_le_not_ge a b := by
    simp only [le_iff_rank, lt_iff_rank]
    omega
  le_antisymm a b := by
    simp only [le_iff_rank]
    exact fun h h' => rank_injective (Int.le_antisymm h h')
  le_total a b := by
    simp only [le_iff_rank]
    omega
  toDecidableLE := inferInstance
  toDecidableEq := inferInstance
  toDecidableLT := inferInstance

end Moment

end Timeline
