import Mathlib.Data.Prod.Lex
import Mathlib.Tactic.Lemma
import Timeline.Value.Comparison

/-! # The order of numbers

Numbers are compared by their rank, which what is no number lacks. Hence equality is symmetric and
transitive, and the order of two numbers is reversed with them. No more is said of numbers where
values are compared. -/
namespace Timeline.Number
open Float.Model

/-- Signs and infinities come first, then the exponent, then the mantissa. -/
def rank? : UnpackedFloat → Option (Int ×ₗ Int ×ₗ Int)
  | .notANumber => none
  | .infinity .negative => some (toLex (-2, toLex (0, 0)))
  | .finite .negative mantissa exponent _ => some (toLex (-1, toLex (-exponent, -mantissa)))
  | .zero _ => some (toLex (0, toLex (0, 0)))
  | .finite .positive mantissa exponent _ => some (toLex (1, toLex (exponent, mantissa)))
  | .infinity .positive => some (toLex (2, toLex (0, 0)))

lemma compare_neg (m n : Int) : compare (-m) (-n) = (compare m n).swap := by
  rw [Int.compare_swap]
  rcases lt_trichotomy m n with h | rfl | h
  · rw [compare_gt_iff_gt.2 h, compare_gt_iff_gt.2 (Int.neg_lt_neg h)]
  · rw [compare_eq_iff_eq.2 rfl, compare_eq_iff_eq.2 rfl]
  · rw [compare_lt_iff_lt.2 h, compare_lt_iff_lt.2 (Int.neg_lt_neg h)]

lemma compare_natCast (m n : Nat) : compare (m : Int) n = compare m n := by
  rcases lt_trichotomy m n with h | rfl | h
  · rw [compare_lt_iff_lt.2 h, compare_lt_iff_lt.2 (Int.ofNat_lt.2 h)]
  · rw [compare_eq_iff_eq.2 rfl, compare_eq_iff_eq.2 rfl]
  · rw [compare_gt_iff_gt.2 h, compare_gt_iff_gt.2 (Int.ofNat_lt.2 h)]

lemma compare_toLex {α : Type} [LinearOrder α] (k l : Int) (r s : α) :
    compare (toLex (k, r)) (toLex (l, s)) = (compare k l).then (compare r s) := by
  rw [Prod.Lex.compare_def]
  rfl

/-- Two numbers compare as their ranks do. -/
theorem compare_eq_rank (a b : UnpackedFloat) :
    a.compare b = (rank? a).bind fun r => (rank? b).map (compare r) := by
  cases a with
  | notANumber => rfl
  | infinity s =>
    cases b with
    | notANumber => cases s <;> rfl
    | infinity t | zero t | finite t => cases s <;> cases t <;> rfl
  | zero s =>
    cases b with
    | notANumber | zero => rfl
    | infinity t | finite t => cases t <;> rfl
  | finite s m e hm =>
    cases b with
    | notANumber => cases s <;> rfl
    | infinity t | zero t => cases s <;> cases t <;> rfl
    | finite t n f hn =>
      cases s <;> cases t
      case negative.negative =>
        have h : compare (toLex (-e, -(m : Int))) (toLex (-f, -(n : Int))) =
            ((compare e f).then (compare m n)).swap := by
          rw [compare_toLex, compare_neg, compare_neg, compare_natCast, Ordering.swap_then]
        exact congrArg some h.symm
      case positive.positive =>
        have h : compare (toLex (e, (m : Int))) (toLex (f, (n : Int))) =
            (compare e f).then (compare m n) := by
          rw [compare_toLex, compare_natCast]
        exact congrArg some h.symm
      all_goals rfl

theorem compare_eq_some_eq_iff {a b : UnpackedFloat} :
    a.compare b = some .eq ↔ ∃ r, rank? a = some r ∧ rank? b = some r := by
  rw [compare_eq_rank]
  cases rank? a with
  | none => simp
  | some r =>
    cases rank? b with
    | none => simp
    | some s =>
      simp only [Option.bind_some, Option.map_some, Option.some.injEq, exists_eq_left']
      rw [compare_eq_iff_eq, eq_comm]

theorem compare_swap (a b : UnpackedFloat) : b.compare a = (a.compare b).map Ordering.swap := by
  rw [compare_eq_rank, compare_eq_rank]
  cases rank? a with
  | none => cases rank? b <;> rfl
  | some r =>
    cases rank? b with
    | none => rfl
    | some s => exact congrArg some Std.OrientedCmp.eq_swap

/-- `==` on numbers. -/
lemma beq_iff {x y : Float} :
    (x == y) = true ↔ x.toModel.unpack.compare y.toModel.unpack = some .eq :=
  beq_iff_eq (a := x.toModel.unpack.compare y.toModel.unpack)

lemma lt_iff {x y : Float} : x < y ↔ x.toModel.unpack.compare y.toModel.unpack = some .lt :=
  decide_eq_true_iff.trans beq_iff_eq

theorem beq_comm (x y : Float) : (x == y) = (y == x) := by
  rw [Bool.eq_iff_iff, beq_iff, beq_iff, compare_eq_some_eq_iff, compare_eq_some_eq_iff]
  exact exists_congr fun r => and_comm

theorem beq_trans {x y z : Float} (hxy : (x == y) = true) (hyz : (y == z) = true) :
    (x == z) = true := by
  rw [beq_iff, compare_eq_some_eq_iff] at *
  obtain ⟨r, hx, hy⟩ := hxy
  obtain ⟨s, hy', hz⟩ := hyz
  obtain rfl : r = s := Option.some.inj (hy.symm.trans hy')
  exact ⟨r, hx, hz⟩

lemma zero_beq_zero : ((0.0 : Float) == 0.0) = true := by decide

lemma one_beq_one : ((1.0 : Float) == 1.0) = true := by decide

theorem compareNumbers_swap (x y : Float) :
    Value.compareNumbers y x = (Value.compareNumbers x y).map Ordering.swap := by
  have hswap := compare_swap x.toModel.unpack y.toModel.unpack
  simp only [Value.compareNumbers, lt_iff, beq_iff, hswap]
  cases x.toModel.unpack.compare y.toModel.unpack with
  | none => rfl
  | some order => cases order <;> rfl

end Timeline.Number
