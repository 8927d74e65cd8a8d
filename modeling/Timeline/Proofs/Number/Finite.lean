import Mathlib
import Timeline.Number.Binary64

/-! # Finite numbers

Bits stand for a finite number unless all bits of the exponent are set. The number nearest to an
integer of 64 bits is far below these. -/
namespace Timeline.Number
open Float.Model

section
variable {bits : BitVec Format.binary64.numBits}

lemma toNat_unpackExponent : (UnpackedFloat.unpackExponent bits).toNat =
    bits.toNat / Binary64.leadingBit % 2048 := by
  change bits.toNat >>> 52 % 2048 = _
  rw [Nat.shiftRight_eq_div_pow]
  rfl

lemma unpackExponent_ne (h : bits.toNat / Binary64.leadingBit % 2048 < 2047) :
    UnpackedFloat.unpackExponent bits ≠ -1#_ := by
  intro heq
  rw [← toNat_unpackExponent, heq] at h
  exact absurd h (by decide)

lemma isFinite_unpack (h : bits.toNat / Binary64.leadingBit % 2048 < 2047) :
    (UnpackedFloat.unpack .binary64 bits).isFinite = true := by
  rw [UnpackedFloat.unpack]
  dsimp only
  rw [if_neg (unpackExponent_ne h)]
  split_ifs <;> rfl

end

section
variable {bits : UInt64}

/-- Bits of anything but a NaN are kept. -/
lemma toBits_ofBits (h : bits.toNat % Binary64.signBit ≤ Binary64.infinityBits) :
    (Float.ofBits bits).toBits = bits := by
  have hnumber : @UnpackedFloat.isNaNBits .binary64 bits.toBitVec = false := by
    refine decide_eq_false fun ⟨hset, hmantissa⟩ => hmantissa ?_
    have hexponent := @toNat_unpackExponent bits.toBitVec
    rw [hset] at hexponent
    have hmantissa : bits.toNat % Binary64.leadingBit = 0 := by
      change 2047 = bits.toNat / Binary64.leadingBit % 2048 at hexponent
      unfold Binary64.infinityBits Binary64.signBit Binary64.leadingBit at *
      omega
    exact BitVec.toNat_inj.1 hmantissa
  refine UInt64.toBitVec_inj.1 ?_
  change UnpackedFloat.pack .binary64 (UnpackedFloat.unpack .binary64 bits.toBitVec) = _
  rw [UnpackedFloat.pack_unpack, hnumber]
  rfl

theorem isFinite_ofBits (h : bits.toNat / Binary64.leadingBit % 2048 < 2047) :
    (Float.ofBits bits).isFinite = true := by
  have hle : bits.toNat % Binary64.signBit ≤ Binary64.infinityBits := by
    unfold Binary64.infinityBits Binary64.signBit Binary64.leadingBit at *
    omega
  change (UnpackedFloat.unpack .binary64 (Float.ofBits bits).toBits.toBitVec).isFinite = true
  rw [toBits_ofBits hle]
  exact @isFinite_unpack bits.toBitVec h

end

namespace Binary64

/-- The sign is put before bits that leave room for it. -/
theorem isFinite_ofQuotient {negative : Bool} {num den : Nat}
    (h : magnitudeBits num den < infinityBits) : (ofQuotient negative num den).isFinite = true := by
  refine isFinite_ofBits ?_
  rw [UInt64.toNat_ofNat']
  unfold infinityBits leadingBit signBit at *
  split_ifs <;> omega

lemma roundToEven_le (num den : Nat) : roundToEven num den ≤ num / den + 1 := by
  unfold roundToEven
  dsimp only
  split_ifs
  · exact Nat.le_refl _
  · exact Nat.le_succ _

lemma floorLog2_one (num : Nat) :
    (num.log2 : Int) - 1 ≤ floorLog2 num 1 ∧ floorLog2 num 1 ≤ num.log2 := by
  have hone : Nat.log2 1 = 0 := by decide
  unfold floorLog2
  rw [hone]
  dsimp only
  split_ifs <;> omega

/-- A number without its last binary digits, as many as there are from the 54th on. -/
lemma scaled_lt {num : Nat} {exponent : Int} (h : (num.log2 : Int) ≤ exponent + 53) :
    num * scaleDown exponent / scaleUp exponent < 2 ^ 54 := by
  refine Nat.div_lt_of_lt_mul ?_
  calc num * 2 ^ (-exponent).toNat
      < 2 ^ (num.log2 + 1) * 2 ^ (-exponent).toNat :=
        Nat.mul_lt_mul_of_pos_right Nat.lt_log2_self (Nat.two_pow_pos _)
    _ = 2 ^ (num.log2 + 1 + (-exponent).toNat) := (Nat.pow_add ..).symm
    _ ≤ 2 ^ (exponent.toNat + 54) := Nat.pow_le_pow_right Nat.two_pos (by omega)
    _ = 2 ^ exponent.toNat * 2 ^ 54 := Nat.pow_add ..

lemma magnitudeBits_lt {num : Nat} (h : num < 2 ^ 64) : magnitudeBits num 1 < infinityBits := by
  unfold magnitudeBits
  dsimp only
  split_ifs with hzero
  · decide
  · have hlog : num.log2 < 64 := (Nat.log2_lt hzero).2 h
    obtain ⟨hfloor, hfloor'⟩ := floorLog2_one num
    generalize hexponent : max leastExponent (floorLog2 num 1 - 52) = exponent
    have hscaled := @scaled_lt num exponent (by unfold leastExponent at *; omega)
    have hround := roundToEven_le (num * scaleDown exponent) (1 * scaleUp exponent)
    rw [Nat.one_mul] at *
    unfold infinityBits leastExponent leadingBit at *
    omega

/-- No integer of 64 bits is too large to be a number. -/
theorem isFinite_ofInt {n : Int} (h : n.natAbs < 2 ^ 64) : (ofInt n).isFinite = true :=
  isFinite_ofQuotient (magnitudeBits_lt h)

end Binary64

end Timeline.Number
