import Timeline.Number.Decimal
import Timeline.Proofs.Number.Magnitude

/-! # The nearest number

A decimal is rounded to the number that lies nearest to it, of two that lie equally near to the one
with even bits. There is no other such number. -/
namespace Timeline.Number
open Float.Model Binary64

/-- The number `x` has no sign and lies nearest to `q`; its bits are even if another one is as near.
-/
inductive IsNearest (q : ℚ) (x : Float) : Prop
  | intro {w} (hpoint : point? x.toModel.unpack = some w) (hsign : x.toBits.toNat < signBit)
    (hnearest : ∀ (y : Float) v, point? y.toModel.unpack = some v →
      |q - w| < |q - v| ∨ |q - w| = |q - v| ∧ (v = w ∨ x.toBits.toNat % 2 = 0))

/-- The bits of the magnitude nearest to `q`. -/
def IsRounded (q : ℚ) (bits : Nat) : Prop :=
  ∀ k, |q - magnitude bits| < |q - magnitude k| ∨
    |q - magnitude bits| = |q - magnitude k| ∧ (k = bits ∨ bits % 2 = 0)

section
variable {q : ℚ} {bits : Nat}

/-- What lies strictly between two rationals is nearer to their middle than they are. -/
lemma abs_sub_lt_of_between {q a b c : ℚ} (hab : a < b) (hbc : b < c) (h : |q - a| = |q - c|) :
    |q - b| < |q - a| := by
  rcases abs_eq_abs.1 h with heq | heq
  · linarith
  · have hle : q - a = |q - a| := (abs_of_nonneg (by linarith)).symm
    rw [← hle, abs_lt]
    constructor <;> linarith

/-- Of two magnitudes with even bits neither is nearest if both are equally near: the one after the
smaller lies between them. -/
lemma exists_nearer {bits bits' : Nat} (hlt : bits < bits') (hle : bits' ≤ infinityBits)
    (heven : bits % 2 = 0) (heven' : bits' % 2 = 0)
    (heq : |q - magnitude bits| = |q - magnitude bits'|) :
    ∃ (y : Float) (v : ℚ), point? y.toModel.unpack = some v ∧ |q - v| < |q - magnitude bits| := by
  have hsucc : bits + 1 < bits' := by omega
  exact ⟨_, _, point?_ofBits (hsucc.le.trans hle),
    abs_sub_lt_of_between (magnitude_lt_succ bits) (strictMono_magnitude hsucc) heq⟩

/-- There is no other nearest number. -/
theorem IsNearest.unique {x y : Float} (hx : IsNearest q x) (hy : IsNearest q y) : x = y := by
  obtain ⟨hpx, hsx, hnx⟩ := hx
  obtain ⟨hpy, hsy, hny⟩ := hy
  obtain ⟨hlex, rfl⟩ := point?_eq_of_lt hsx hpx
  obtain ⟨hley, rfl⟩ := point?_eq_of_lt hsy hpy
  have heq : |q - magnitude x.toBits.toNat| = |q - magnitude y.toBits.toNat| := by
    rcases hnx y _ hpy with hlt | ⟨heq, -⟩
    · rcases hny x _ hpx with hlt' | ⟨heq, -⟩
      · exact absurd hlt hlt'.not_gt
      · exact heq.symm
    · exact heq
  have hbits : x.toBits.toNat = y.toBits.toNat := by
    by_contra hne
    have hmagnitude := strictMono_magnitude.injective.ne hne
    have hevenx : x.toBits.toNat % 2 = 0 := by
      obtain hlt | ⟨-, h⟩ := hnx y _ hpy
      · exact absurd heq hlt.ne
      · exact h.resolve_left hmagnitude.symm
    have heveny : y.toBits.toNat % 2 = 0 := by
      obtain hlt | ⟨-, h⟩ := hny x _ hpx
      · exact absurd heq.symm hlt.ne
      · exact h.resolve_left hmagnitude
    rcases Nat.lt_or_gt_of_ne hne with hlt | hlt
    · obtain ⟨z, w, hz, hnearer⟩ := exists_nearer hlt hley hevenx heveny heq
      rcases hnx z w hz with h | ⟨h, -⟩ <;> linarith
    · obtain ⟨z, w, hz, hnearer⟩ := exists_nearer hlt hlex heveny hevenx heq.symm
      rcases hny z w hz with h | ⟨h, -⟩ <;> linarith
  exact Float.toBits_inj.1 (UInt64.toNat_inj.1 hbits)

/-- It is enough to look at the magnitudes, since what is not negative is no nearer to a negative
number than to zero. -/
lemma isNearest_ofBits (hq : 0 ≤ q) (hbits : bits ≤ infinityBits)
    (h : ∀ k ≤ infinityBits, |q - magnitude bits| < |q - magnitude k| ∨
      |q - magnitude bits| = |q - magnitude k| ∧ (k = bits ∨ bits % 2 = 0)) :
    IsNearest q (Float.ofBits (UInt64.ofNat bits)) := by
  have hstored := toBits_ofBits_ofNat hbits
  have hpositive {k : Nat} (hk : k ≤ infinityBits) :
      |q - magnitude bits| < |q - magnitude k| ∨ |q - magnitude bits| = |q - magnitude k| ∧
        (magnitude k = magnitude bits ∨
          (Float.ofBits (UInt64.ofNat bits)).toBits.toNat % 2 = 0) := by
    rw [hstored]
    exact (h k hk).imp_right fun h => ⟨h.1, h.2.imp_left (congrArg magnitude)⟩
  refine .intro (point?_ofBits hbits) (by rw [hstored]; exact hbits.trans_lt (by decide)) ?_
  intro y v hv
  obtain ⟨k, hk, rfl | rfl⟩ := exists_magnitude hv
  · exact hpositive hk
  · rcases Nat.eq_zero_or_pos k with rfl | hpos
    · have hzero : -magnitude 0 = magnitude 0 := by rw [magnitude_zero, neg_zero]
      rw [hzero]
      exact hpositive hk
    · have hmagnitude : 0 < magnitude k := magnitude_zero ▸ strictMono_magnitude hpos
      have hzero : |q - magnitude bits| ≤ q := by
        have hle : |q - magnitude bits| ≤ |q - magnitude 0| :=
          (h 0 (Nat.zero_le _)).elim le_of_lt fun h => h.1.le
        rwa [magnitude_zero, sub_zero, abs_of_nonneg hq] at hle
      refine .inl (hzero.trans_lt ?_)
      rw [sub_neg_eq_add, abs_of_nonneg (by linarith)]
      linarith

/-- What lies beyond the place of infinity is infinite. -/
lemma isNearest_infinity (h : magnitude infinityBits ≤ q) :
    IsNearest q (Float.ofBits (UInt64.ofNat infinityBits)) := by
  have hpositive : 0 ≤ magnitude infinityBits := by
    rw [magnitude_infinityBits]
    positivity
  refine isNearest_ofBits (hpositive.trans h) le_rfl fun k hk => ?_
  rcases Nat.lt_or_eq_of_le hk with hlt | rfl
  · have hmagnitude := strictMono_magnitude hlt
    refine .inl ?_
    rw [abs_of_nonneg (by linarith), abs_of_nonneg (by linarith)]
    linarith
  · exact .inr ⟨rfl, .inl rfl⟩

lemma IsRounded.abs_le (h : IsRounded q bits) (k : Nat) :
    |q - magnitude bits| ≤ |q - magnitude k| :=
  (h k).elim le_of_lt fun h => h.1.le

lemma IsRounded.isNearest (hq : 0 ≤ q) (h : IsRounded q bits) :
    IsNearest q (Float.ofBits (UInt64.ofNat (min infinityBits bits))) := by
  rcases Nat.lt_or_ge infinityBits bits with hlt | hle
  · rw [Nat.min_eq_left hlt.le]
    refine isNearest_infinity ?_
    by_contra hq
    have hmagnitude := strictMono_magnitude hlt
    have hnearer := h.abs_le infinityBits
    rw [abs_of_nonpos (by linarith), abs_of_nonpos (by linarith)] at hnearer
    linarith
  · rw [Nat.min_eq_right hle]
    exact isNearest_ofBits hq hle fun k _ => h k

end

section
variable {num den : Nat}

lemma le_half_iff (hden : 0 < den) : (num : ℚ) / den ≤ 1 / 2 ↔ 2 * num ≤ den := by
  rw [div_le_div_iff₀ (Nat.cast_pos.2 hden) two_pos, one_mul, mul_comm]
  exact_mod_cast Iff.rfl

lemma half_le_iff (hden : 0 < den) : 1 / 2 ≤ (num : ℚ) / den ↔ den ≤ 2 * num := by
  rw [div_le_div_iff₀ two_pos (Nat.cast_pos.2 hden), one_mul, mul_comm]
  exact_mod_cast Iff.rfl

lemma div_eq_add_rest (hden : 0 < den) :
    (num : ℚ) / den = (num / den : Nat) + ((num % den : Nat) : ℚ) / den := by
  have hdivision : (num : ℚ) = den * (num / den : Nat) + (num % den : Nat) := by
    exact_mod_cast (Nat.div_add_mod num den).symm
  rw [div_eq_iff (Nat.cast_ne_zero.2 hden.ne'), add_mul,
    div_mul_cancel₀ _ (Nat.cast_ne_zero.2 hden.ne'), mul_comm]
  exact hdivision

/-- A quotient is rounded to an integer at most a half away, and to an even one if it is a half. -/
lemma roundToEven_spec (hden : 0 < den) : |(num : ℚ) / den - roundToEven num den| ≤ 1 / 2 ∧
    (|(num : ℚ) / den - roundToEven num den| = 1 / 2 → roundToEven num den % 2 = 0) := by
  have hrest : (0 : ℚ) ≤ ((num % den : Nat) : ℚ) / den := by positivity
  have hone : ((num % den : Nat) : ℚ) / den ≤ 1 :=
    div_le_one_of_le₀ (Nat.cast_le.2 (Nat.mod_lt _ hden).le) (Nat.cast_nonneg _)
  have htie (h : ((num % den : Nat) : ℚ) / den = 1 / 2) : den = 2 * (num % den) :=
    Nat.le_antisymm ((half_le_iff hden).1 h.ge) ((le_half_iff hden).1 h.le)
  unfold roundToEven
  dsimp only
  rw [div_eq_add_rest hden]
  split_ifs with hup
  · have hhalf := (half_le_iff hden).2 (by omega : den ≤ 2 * (num % den))
    rw [Nat.cast_succ, add_sub_add_left_eq_sub, abs_of_nonpos (by linarith)]
    refine ⟨by linarith, fun heq => ?_⟩
    have hdouble := htie (by linarith)
    omega
  · rw [add_sub_cancel_left, abs_of_nonneg hrest]
    refine ⟨(le_half_iff hden).2 (by omega), fun heq => ?_⟩
    have hdouble := htie heq
    omega

/-- What is at most a half away from an integer is no nearer to another. -/
lemma abs_sub_le_of_le_half {r : ℚ} {m : Nat} (h : |r - m| ≤ 1 / 2) (k : Nat) :
    |r - m| < |r - k| ∨ |r - m| = |r - k| ∧ (k = m ∨ |r - m| = 1 / 2) := by
  rcases eq_or_ne k m with rfl | hne
  · exact .inr ⟨rfl, .inl rfl⟩
  · have hone : (1 : ℚ) ≤ |(k : ℚ) - m| := by
      have hne : (k : Int) - m ≠ 0 := sub_ne_zero.2 (Nat.cast_injective.ne hne)
      exact_mod_cast Int.one_le_abs hne
    have htriangle := abs_sub_le (k : ℚ) r m
    rw [abs_sub_comm (k : ℚ) r] at htriangle
    rcases lt_or_eq_of_le (by linarith : |r - m| ≤ |r - k|) with hlt | heq
    · exact .inl hlt
    · exact .inr ⟨heq, .inr (by linarith)⟩

lemma abs_mul_sub_mul {u : ℚ} (hu : 0 < u) (r s : ℚ) : |r * u - s * u| = |r - s| * u := by
  rw [← sub_mul, abs_mul, abs_of_pos hu]

/-- A number is a multiple of the last place of a larger one, or lies below all numbers that have
this last place. -/
lemma magnitude_cases (bits exponent : Nat) :
    (∃ k : Nat, magnitude bits = k * 2 ^ (leastExponent + exponent)) ∨
      0 < exponent ∧ magnitude bits < leadingBit * 2 ^ (leastExponent + exponent) := by
  obtain ⟨least, mantissa, rfl, h, hlt⟩ := exists_exponent bits
  rw [magnitude_eq h hlt.le]
  rcases Nat.lt_or_ge least exponent with hgt | hle
  · have hdouble : (2 : ℚ) * 2 ^ (leastExponent + least) ≤ 2 ^ (leastExponent + exponent) := by
      rw [mul_comm, ← zpow_add_one₀ two_ne_zero]
      exact zpow_le_zpow_right₀ one_le_two (by omega)
    refine .inr ⟨by omega, ?_⟩
    calc (mantissa : ℚ) * 2 ^ (leastExponent + least)
        < (2 * leadingBit : Nat) * 2 ^ (leastExponent + least) :=
          mul_lt_mul_of_pos_right (Nat.cast_lt.2 hlt) (zpow_two_pos _)
      _ = leadingBit * (2 * 2 ^ (leastExponent + least)) := by push_cast; ring
      _ ≤ leadingBit * 2 ^ (leastExponent + exponent) :=
          mul_le_mul_of_nonneg_left hdouble (Nat.cast_nonneg _)
  · have hpower : (2 : ℚ) ^ (leastExponent + least) =
        2 ^ (least - exponent) * 2 ^ (leastExponent + exponent) := by
      rw [← zpow_natCast, ← zpow_add₀ two_ne_zero]
      congr 1
      omega
    exact .inl ⟨mantissa * 2 ^ (least - exponent), by rw [hpower]; push_cast; ring⟩

/-- A mantissa is rounded as an integer if it has its leading bit or the exponent is least. -/
lemma isRounded_of_scaled {r : ℚ} {exponent mantissa : Nat}
    (hleading : exponent = 0 ∨ leadingBit ≤ r) (hlt : r < 2 * leadingBit)
    (hhalf : |r - mantissa| ≤ 1 / 2) (heven : |r - mantissa| = 1 / 2 → mantissa % 2 = 0) :
    IsRounded (r * 2 ^ (leastExponent + exponent)) (exponent * leadingBit + mantissa) := by
  have hunit := zpow_two_pos (leastExponent + exponent)
  obtain ⟨hlow, hhigh⟩ := abs_le.1 hhalf
  have hmantissa : mantissa ≤ 2 * leadingBit := by
    refine Nat.le_of_lt_succ (Nat.cast_lt (α := ℚ).1 ?_)
    push_cast
    linarith
  have hbit : exponent = 0 ∨ leadingBit ≤ mantissa := by
    refine hleading.imp_right fun h => Nat.le_of_lt_succ (Nat.cast_lt (α := ℚ).1 ?_)
    push_cast
    linarith
  have hmagnitude := magnitude_eq hbit hmantissa
  have hparity : (exponent * leadingBit + mantissa) % 2 = mantissa % 2 := by
    unfold leadingBit
    omega
  intro k
  rw [hmagnitude, hparity, abs_mul_sub_mul hunit]
  rcases magnitude_cases k exponent with ⟨j, hj⟩ | ⟨hpositive, hbelow⟩
  · rw [hj, abs_mul_sub_mul hunit]
    rcases abs_sub_le_of_le_half hhalf j with hlt | ⟨heq, hsame⟩
    · exact .inl (mul_lt_mul_of_pos_right hlt hunit)
    · refine .inr ⟨by rw [heq], hsame.imp ?_ heven⟩
      rintro rfl
      exact strictMono_magnitude.injective (hj.trans hmagnitude.symm)
  · have hr : (leadingBit : ℚ) ≤ r := hleading.resolve_left hpositive.ne'
    have hnearest : |r - mantissa| ≤ |r - leadingBit| :=
      (abs_sub_le_of_le_half hhalf leadingBit).elim le_of_lt fun h => h.1.le
    rw [abs_of_nonneg (by linarith : 0 ≤ r - leadingBit)] at hnearest
    refine .inl ?_
    calc |r - mantissa| * 2 ^ (leastExponent + exponent)
        ≤ (r - leadingBit) * 2 ^ (leastExponent + exponent) :=
          mul_le_mul_of_nonneg_right hnearest hunit.le
      _ = r * 2 ^ (leastExponent + exponent) - leadingBit * 2 ^ (leastExponent + exponent) :=
          sub_mul _ _ _
      _ < r * 2 ^ (leastExponent + exponent) - magnitude k := by linarith
      _ ≤ |r * 2 ^ (leastExponent + exponent) - magnitude k| := le_abs_self _

lemma pow_toNat_div (b : ℚ) (n : Int) : b ^ n.toNat / b ^ (-n).toNat = b ^ n := by
  obtain ⟨k, rfl | rfl⟩ := n.eq_nat_or_neg
  · simp
  · simp

lemma scaled_eq (num den : Nat) (exponent : Int) :
    ((num * scaleDown exponent : Nat) : ℚ) / (den * scaleUp exponent : Nat) =
      num / den / 2 ^ exponent := by
  have hpower : (2 : ℚ) ^ exponent.toNat / 2 ^ (-exponent).toNat = 2 ^ exponent :=
    pow_toNat_div 2 exponent
  rw [← hpower]
  simp only [scaleDown, scaleUp, Nat.pow_eq]
  push_cast
  field_simp

lemma scaled_le_iff (hden : 0 < den) (exponent : Int) :
    den * scaleUp exponent ≤ num * scaleDown exponent ↔ (2 : ℚ) ^ exponent ≤ num / den := by
  have hscaled : (0 : ℚ) < (den * scaleUp exponent : Nat) :=
    Nat.cast_pos.2 (Nat.mul_pos hden (Nat.pow_pos Nat.two_pos))
  rw [← one_le_div (zpow_two_pos exponent), ← scaled_eq, one_le_div hscaled, Nat.cast_le]

lemma floorLog2_spec (hnum : num ≠ 0) (hden : 0 < den) :
    (2 : ℚ) ^ floorLog2 num den ≤ num / den ∧ (num : ℚ) / den < 2 ^ (floorLog2 num den + 1) := by
  have hpositive : (0 : ℚ) < den := Nat.cast_pos.2 hden
  have hlow : (2 : ℚ) ^ ((num.log2 : Int) - den.log2 - 1) ≤ num / den := by
    have hnum' : (2 : ℚ) ^ num.log2 ≤ num := by exact_mod_cast Nat.log2_self_le hnum
    have hden' : (den : ℚ) ≤ 2 ^ (den.log2 + 1) := by exact_mod_cast Nat.lt_log2_self.le
    rw [sub_sub, zpow_sub₀ two_ne_zero]
    exact div_le_div₀ (Nat.cast_nonneg _) (by exact_mod_cast hnum') hpositive
      (by exact_mod_cast hden')
  have hhigh : (num : ℚ) / den < 2 ^ ((num.log2 : Int) - den.log2 + 1) := by
    have hnum' : (num : ℚ) < 2 ^ (num.log2 + 1) := by exact_mod_cast Nat.lt_log2_self
    have hden' : (2 : ℚ) ^ den.log2 ≤ den := by exact_mod_cast Nat.log2_self_le hden.ne'
    rw [sub_add_eq_add_sub, zpow_sub₀ two_ne_zero]
    exact div_lt_div₀ (by exact_mod_cast hnum') (by exact_mod_cast hden') (by positivity)
      (by positivity)
  unfold floorLog2
  dsimp only
  split_ifs with hguess
  · exact ⟨(scaled_le_iff hden _).1 hguess, hhigh⟩
  · rw [sub_add_cancel]
    exact ⟨hlow, lt_of_not_ge (mt (scaled_le_iff hden _).2 hguess)⟩

/-- In units of its last place a number has the bits of a mantissa. -/
lemma scaled_bounds {q : ℚ} {floor : Int} {exponent : Nat} (hlow : 2 ^ floor ≤ q)
    (hhigh : q < 2 ^ (floor + 1))
    (hexponent : max leastExponent (floor - 52) = leastExponent + exponent) :
    (exponent = 0 ∨ leadingBit ≤ q / 2 ^ (leastExponent + exponent)) ∧
      q / 2 ^ (leastExponent + exponent) < 2 * leadingBit := by
  have hunit := zpow_two_pos (leastExponent + exponent)
  rw [le_div_iff₀ hunit, div_lt_iff₀ hunit, leadingBit_eq]
  constructor
  · rcases Nat.eq_zero_or_pos exponent with hleast | hpos
    · exact .inl hleast
    · have hfloor : floor = 52 + (leastExponent + exponent) := by omega
      rw [hfloor, zpow_add₀ two_ne_zero] at hlow
      exact .inr (by exact_mod_cast hlow)
  · calc q < 2 ^ (floor + 1) := hhigh
      _ ≤ 2 ^ (53 + (leastExponent + exponent)) := zpow_le_zpow_right₀ one_le_two (by omega)
      _ = 2 * 2 ^ 52 * 2 ^ (leastExponent + exponent) := by
          rw [zpow_add₀ two_ne_zero]
          norm_num

theorem isNearest_ofQuotient (hden : 0 < den) :
    IsNearest ((num : ℚ) / den) (ofQuotient false num den) := by
  have hzero : (if false then signBit else 0) = 0 := rfl
  rw [ofQuotient, hzero, Nat.zero_add, magnitudeBits]
  split_ifs with hnum
  · refine isNearest_ofBits (by positivity) (Nat.zero_le _) fun k _ => ?_
    rw [hnum, Nat.cast_zero, zero_div, magnitude_zero, sub_zero, abs_zero]
    exact (lt_or_eq_of_le (abs_nonneg _)).imp_right fun h => ⟨h, .inr rfl⟩
  · obtain ⟨hlow, hhigh⟩ := floorLog2_spec hnum hden
    generalize floorLog2 num den = floor at *
    dsimp only
    obtain ⟨exponent, hexponent⟩ : ∃ exponent : Nat,
        max leastExponent (floor - 52) = leastExponent + exponent :=
      ⟨(max leastExponent (floor - 52) - leastExponent).toNat, by omega⟩
    have hplace : (leastExponent + exponent - leastExponent).toNat = exponent := by omega
    have hpositive : 0 < den * scaleUp (leastExponent + exponent) :=
      Nat.mul_pos hden (Nat.pow_pos Nat.two_pos)
    obtain ⟨hhalf, heven⟩ :=
      @roundToEven_spec (num * scaleDown (leastExponent + exponent)) _ hpositive
    rw [scaled_eq] at hhalf heven
    obtain ⟨hleading, hlt⟩ := scaled_bounds hlow hhigh hexponent
    have hrounded := isRounded_of_scaled hleading hlt hhalf heven
    rw [div_mul_cancel₀ _ (zpow_two_pos _).ne'] at hrounded
    rw [hexponent, hplace]
    exact hrounded.isNearest (by positivity)

/-- What is below half of the least number is zero. -/
lemma isNearest_zero {q : ℚ} (hq : 0 ≤ q) (h : 2 * q < 2 ^ leastExponent) :
    IsNearest q (ofQuotient false 0 1) := by
  refine @isNearest_ofBits q 0 hq (Nat.zero_le _) fun k _ => ?_
  rcases Nat.eq_zero_or_pos k with rfl | hpos
  · exact .inr ⟨rfl, .inl rfl⟩
  · have hle := strictMono_magnitude.monotone (Nat.succ_le_of_lt hpos)
    rw [magnitude_one] at hle
    refine .inl ?_
    rw [magnitude_zero, sub_zero, abs_of_nonneg hq, abs_of_nonpos (by linarith)]
    linarith

end

namespace Decimal

/-- The rational that a decimal is. -/
def value (d : Decimal) : ℚ :=
  (if d.negative then -1 else 1) * (d.coefficient * 10 ^ d.exponent)

variable {d : Decimal}

lemma digitCount_spec {n : Nat} (h : n ≠ 0) :
    10 ^ (digitCount n - 1) ≤ n ∧ n < 10 ^ digitCount n ∧ 0 < digitCount n := by
  have hlength : digitCount n = (Nat.toDigits 10 n).length := if_neg h
  have hpositive : 0 < digitCount n := by
    rw [hlength]
    exact Nat.length_toDigits_pos
  refine ⟨?_, ?_, hpositive⟩
  · rcases Nat.eq_zero_or_pos (digitCount n - 1) with hzero | hpos
    · rw [hzero]
      exact Nat.pos_of_ne_zero h
    · by_contra hlt
      rw [not_le, ← Nat.length_toDigits_le_iff (by decide) hpos] at hlt
      omega
  · rw [← Nat.length_toDigits_le_iff (by decide) hpositive, hlength]

lemma value_eq (h : d.negative = false) : d.value = d.coefficient * 10 ^ d.exponent := by
  rw [value, h, if_neg Bool.false_ne_true, one_mul]

/-- A decimal lies between the powers of ten that its size tells. -/
lemma value_bounds (h : d.negative = false) (hcoefficient : d.coefficient ≠ 0) :
    10 ^ (digitCount d.coefficient + d.exponent - 1) ≤ d.value ∧
      d.value < 10 ^ (digitCount d.coefficient + d.exponent) := by
  obtain ⟨hlow, hhigh, hpositive⟩ := digitCount_spec hcoefficient
  have hten : (10 : ℚ) ≠ 0 := by norm_num
  have hunit : (0 : ℚ) < 10 ^ d.exponent := by positivity
  have hlow' : (10 : ℚ) ^ (digitCount d.coefficient - 1) ≤ d.coefficient := by exact_mod_cast hlow
  have hhigh' : (d.coefficient : ℚ) < 10 ^ digitCount d.coefficient := by exact_mod_cast hhigh
  have hless : (digitCount d.coefficient : Int) + d.exponent - 1 =
      (digitCount d.coefficient - 1 : Nat) + d.exponent := by omega
  rw [value_eq h, hless, zpow_add₀ hten, zpow_add₀ hten, zpow_natCast, zpow_natCast]
  exact ⟨mul_le_mul_of_nonneg_right hlow' hunit.le, mul_lt_mul_of_pos_right hhigh' hunit⟩

lemma value_lt_of_underflow (h : d.negative = false) (hsmall : d.coefficient = 0 ∨
    digitCount d.coefficient + d.exponent < underflowPower) : 2 * d.value < 2 ^ leastExponent := by
  rcases eq_or_ne d.coefficient 0 with hzero | hcoefficient
  · rw [value_eq h, hzero, Nat.cast_zero, zero_mul, mul_zero]
    exact zpow_two_pos _
  · have hsize := hsmall.resolve_left hcoefficient
    have hpower : (2 : ℚ) * 10 ^ underflowPower ≤ 2 ^ leastExponent := by
      have hnatural : 2 * 2 ^ 1074 ≤ 10 ^ 330 := by decide +kernel
      change (2 : ℚ) * 10 ^ (-(330 : Nat) : Int) ≤ 2 ^ (-(1074 : Nat) : Int)
      rw [zpow_neg, zpow_neg, zpow_natCast, zpow_natCast, ← div_eq_mul_inv, ← one_div,
        div_le_div_iff₀ (by positivity) (by positivity), one_mul]
      exact_mod_cast hnatural
    calc 2 * d.value < 2 * 10 ^ (digitCount d.coefficient + d.exponent) :=
          mul_lt_mul_of_pos_left (value_bounds h hcoefficient).2 two_pos
      _ ≤ 2 * 10 ^ underflowPower :=
          mul_le_mul_of_nonneg_left (zpow_le_zpow_right₀ (by norm_num) hsize.le) two_pos.le
      _ ≤ 2 ^ leastExponent := hpower

lemma le_value_of_overflow (h : d.negative = false) (hcoefficient : d.coefficient ≠ 0)
    (hlarge : overflowPower < digitCount d.coefficient + d.exponent) : 2 ^ 1024 ≤ d.value := by
  have hpower : (2 : ℚ) ^ 1024 ≤ 10 ^ overflowPower := by
    have hnatural : 2 ^ 1024 ≤ 10 ^ 310 := by decide +kernel
    change (2 : ℚ) ^ 1024 ≤ 10 ^ ((310 : Nat) : Int)
    rw [zpow_natCast]
    exact_mod_cast hnatural
  calc (2 : ℚ) ^ 1024 ≤ 10 ^ overflowPower := hpower
    _ ≤ 10 ^ (digitCount d.coefficient + d.exponent - 1) :=
        zpow_le_zpow_right₀ (by norm_num) (by omega)
    _ ≤ d.value := (value_bounds h hcoefficient).1

/-- A decimal without a sign is read as the number nearest to it. -/
theorem isNearest_toFloat (h : d.negative = false) : IsNearest d.value d.toFloat := by
  have hpositive : 0 ≤ d.value := by
    rw [value_eq h]
    positivity
  rw [toFloat, h]
  simp only [if_neg Bool.false_ne_true]
  split_ifs with hsmall hlarge
  · exact isNearest_zero hpositive (value_lt_of_underflow h hsmall)
  · have hinfinity : infinity = Float.ofBits (UInt64.ofNat infinityBits) := rfl
    rw [hinfinity]
    refine isNearest_infinity ?_
    rw [magnitude_infinityBits]
    exact le_value_of_overflow h (not_or.1 hsmall).1 hlarge
  · have hquotient : d.value = (d.coefficient * Nat.pow 10 d.exponent.toNat : Nat) /
        (Nat.pow 10 (-d.exponent).toNat : Nat) := by
      rw [value_eq h, ← pow_toNat_div 10 d.exponent, Nat.pow_eq, Nat.pow_eq]
      push_cast
      ring
    rw [hquotient]
    exact isNearest_ofQuotient (Nat.pow_pos (by decide))

end Decimal

end Timeline.Number
