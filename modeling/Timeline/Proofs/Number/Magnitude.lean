import Timeline.Proofs.Number.Finite

/-! # Where numbers lie

The rational at which a number lies, from its bits. Without their sign the bits count the numbers
from zero upwards. -/
namespace Timeline.Number
open Float.Model Binary64

def withSign : UnpackedFloat.Sign → ℚ → ℚ
  | .positive, q => q
  | .negative, q => -q

/-- The rational at which a number lies. Infinity is put where the number after the largest one
would be, which is what rounding to it takes. -/
def point? : UnpackedFloat → Option ℚ
  | .notANumber => none
  | .infinity sign => some (withSign sign (2 ^ 1024))
  | .zero _ => some 0
  | .finite sign mantissa exponent _ => some (withSign sign (mantissa * 2 ^ exponent))

/-- The rational that the bits of a number without a sign stand for. -/
def magnitude (bits : Nat) : ℚ :=
  let exponent := bits / leadingBit - 1
  (bits - exponent * leadingBit : Nat) * 2 ^ (leastExponent + exponent)

lemma leadingBit_pos : 0 < leadingBit := by decide

lemma leadingBit_eq : (leadingBit : ℚ) = 2 ^ 52 := by norm_num [leadingBit]

lemma zpow_two_pos (n : Int) : (0 : ℚ) < 2 ^ n := zpow_pos two_pos n

/-- A mantissa that is rounded up to the next power of two counts as the exponent after it. -/
lemma magnitude_eq {exponent mantissa : Nat} (h : exponent = 0 ∨ leadingBit ≤ mantissa)
    (hle : mantissa ≤ 2 * leadingBit) :
    magnitude (exponent * leadingBit + mantissa) = mantissa * 2 ^ (leastExponent + exponent) := by
  rcases Nat.lt_or_eq_of_le hle with hlt | rfl
  · have hexponent : (exponent * leadingBit + mantissa) / leadingBit - 1 = exponent := by
      unfold leadingBit at *
      omega
    rw [magnitude, hexponent, Nat.add_sub_cancel_left]
  · have hexponent : (exponent * leadingBit + 2 * leadingBit) / leadingBit - 1 = exponent + 1 := by
      rw [← Nat.add_mul, Nat.mul_div_cancel _ leadingBit_pos]
      rfl
    have hmantissa : exponent * leadingBit + 2 * leadingBit - (exponent + 1) * leadingBit =
        leadingBit := by
      unfold leadingBit
      omega
    have hpower : (2 : ℚ) ^ (leastExponent + (exponent + 1 : Nat)) =
        2 ^ (leastExponent + exponent) * 2 := by
      rw [Nat.cast_add, Nat.cast_one, ← add_assoc]
      exact zpow_add_one₀ two_ne_zero _
    rw [magnitude, hexponent, hmantissa, hpower]
    push_cast
    ring

/-- Bits are an exponent and a mantissa, which has its leading bit unless the exponent is least. -/
lemma exists_exponent (bits : Nat) : ∃ exponent mantissa, bits = exponent * leadingBit + mantissa ∧
    (exponent = 0 ∨ leadingBit ≤ mantissa) ∧ mantissa < 2 * leadingBit := by
  refine ⟨bits / leadingBit - 1, bits - (bits / leadingBit - 1) * leadingBit, ?_⟩
  unfold leadingBit
  omega

lemma magnitude_lt_succ (bits : Nat) : magnitude bits < magnitude (bits + 1) := by
  obtain ⟨exponent, mantissa, rfl, h, hlt⟩ := exists_exponent bits
  rw [Nat.add_assoc, magnitude_eq h hlt.le, magnitude_eq (h.imp_right Nat.le_succ_of_le) hlt]
  exact mul_lt_mul_of_pos_right (Nat.cast_lt.2 (Nat.lt_succ_self _)) (zpow_two_pos _)

lemma strictMono_magnitude : StrictMono magnitude := strictMono_nat_of_lt_succ magnitude_lt_succ

lemma magnitude_of_lt {mantissa : Nat} (h : mantissa < leadingBit) :
    magnitude mantissa = mantissa * 2 ^ leastExponent := by
  have hmagnitude := @magnitude_eq 0 mantissa (.inl rfl) (by omega)
  rwa [Nat.zero_mul, Nat.zero_add, Nat.cast_zero, add_zero] at hmagnitude

lemma magnitude_of_exponent (exponent : Nat) {mantissa : Nat} (h : mantissa < leadingBit) :
    magnitude ((exponent + 1) * leadingBit + mantissa) =
      (leadingBit + mantissa : Nat) * 2 ^ (leastExponent + exponent) := by
  rw [Nat.succ_mul, Nat.add_assoc]
  exact magnitude_eq (.inr (Nat.le_add_right _ _)) (by omega)

lemma magnitude_zero : magnitude 0 = 0 := by
  rw [magnitude_of_lt leadingBit_pos, Nat.cast_zero, zero_mul]

lemma magnitude_one : magnitude 1 = 2 ^ leastExponent := by
  rw [magnitude_of_lt (by decide), Nat.cast_one, one_mul]

lemma magnitude_infinityBits : magnitude infinityBits = 2 ^ 1024 := by
  have hsplit : infinityBits = (2046 + 1) * leadingBit + 0 := rfl
  rw [hsplit, magnitude_of_exponent 2046 leadingBit_pos, Nat.add_zero, leadingBit_eq,
    ← zpow_natCast, ← zpow_add₀ two_ne_zero, ← zpow_natCast]
  rfl

section
variable {bits : BitVec Format.binary64.numBits}

lemma toNat_unpackMantissa :
    (UnpackedFloat.unpackMantissa bits).toNat = bits.toNat % leadingBit := rfl

lemma toNat_mod_signBit : bits.toNat % signBit =
    bits.toNat / leadingBit % 2048 * leadingBit + bits.toNat % leadingBit := by
  unfold signBit leadingBit
  omega

lemma sign_eq : UnpackedFloat.Sign.ofBitVec (UnpackedFloat.unpackSign bits) =
    if bits.toNat < signBit then .positive else .negative := by
  have hsign : (UnpackedFloat.unpackSign bits).toNat = bits.toNat / signBit % 2 := by
    change bits.toNat >>> 63 % 2 = _
    rw [Nat.shiftRight_eq_div_pow]
    rfl
  have hlt : bits.toNat < 2 ^ 64 := bits.isLt
  refine if_congr ?_ rfl rfl
  rw [← BitVec.toNat_inj, hsign]
  unfold signBit
  simp only [BitVec.toNat_ofNat]
  omega

lemma toNat_cons_unpackMantissa : (1#1 ++ UnpackedFloat.unpackMantissa bits).toNat =
    leadingBit + (UnpackedFloat.unpackMantissa bits).toNat := by
  rw [BitVec.toNat_append, ← Nat.shiftLeft_add_eq_or_of_lt (UnpackedFloat.unpackMantissa bits).isLt]
  rfl

lemma unpackExponent_eq_iff {vec : BitVec 11} : UnpackedFloat.unpackExponent bits = vec ↔
    bits.toNat / leadingBit % 2048 = vec.toNat := by
  rw [← toNat_unpackExponent]
  exact BitVec.toNat_inj.symm

lemma unpackMantissa_eq_zero_iff : UnpackedFloat.unpackMantissa bits = 0#52 ↔
    bits.toNat % leadingBit = 0 :=
  BitVec.toNat_inj.symm

lemma withSign_zero (sign : UnpackedFloat.Sign) : withSign sign 0 = 0 := by
  cases sign
  · exact neg_zero
  · rfl

/-- Bits stand for a number that lies where they say, or for a NaN. -/
lemma point?_unpack (bits : BitVec Format.binary64.numBits) :
    point? (UnpackedFloat.unpack .binary64 bits) =
      if bits.toNat % signBit ≤ infinityBits then
        some (withSign (if bits.toNat < signBit then .positive else .negative)
          (magnitude (bits.toNat % signBit)))
      else none := by
  have hlt : bits.toNat % leadingBit < leadingBit := Nat.mod_lt _ leadingBit_pos
  have hexponent : bits.toNat / leadingBit % 2048 < 2048 := Nat.mod_lt _ (by decide)
  have hbias : Format.binary64.exponentBias = 1023 := rfl
  have hset := @unpackExponent_eq_iff bits (-1#11)
  have hclear := @unpackExponent_eq_iff bits 0#11
  have htop : (-1#11).toNat = 2047 := rfl
  have hbottom : (0#11).toNat = 0 := rfl
  rw [toNat_mod_signBit, UnpackedFloat.unpack, sign_eq, hbias]
  -- subnormal and normal numbers, then infinity and NaN
  generalize (if bits.toNat < signBit then UnpackedFloat.Sign.positive else .negative) = sign
  simp only [toNat_unpackMantissa, toNat_unpackExponent, hset, hclear, htop, hbottom]
  rcases Nat.lt_or_eq_of_le (Nat.le_of_lt_succ hexponent) with hfinite | hinfinite
  · have hle : bits.toNat / leadingBit % 2048 * leadingBit + bits.toNat % leadingBit ≤
        infinityBits := by
      unfold infinityBits leadingBit at *
      omega
    rw [if_neg hfinite.ne, if_pos hle]
    cases hsucc : bits.toNat / leadingBit % 2048 with
    | zero =>
      have hleast : ((0 : Nat) : Int) - ((1023 : Nat) + (52 : Nat)) + 1 = leastExponent := rfl
      rw [if_pos rfl, Nat.zero_mul, Nat.zero_add, magnitude_of_lt hlt, hleast]
      split_ifs with hzero
      · rw [unpackMantissa_eq_zero_iff.1 hzero, Nat.cast_zero, zero_mul, withSign_zero, point?]
      · rw [point?]
    | succ exponent =>
      have hnormal : ((exponent + 1 : Nat) : Int) - ((1023 : Nat) + (52 : Nat)) =
          leastExponent + exponent := by
        unfold leastExponent
        omega
      rw [if_neg (Nat.succ_ne_zero _), point?, toNat_cons_unpackMantissa, hnormal,
        magnitude_of_exponent exponent hlt, toNat_unpackMantissa]
  · rw [hinfinite, if_pos rfl]
    by_cases hzero : bits.toNat % leadingBit = 0
    · have hinfinity : 2047 * leadingBit + 0 = infinityBits := rfl
      rw [if_pos (unpackMantissa_eq_zero_iff.2 hzero), hzero, hinfinity, if_pos le_rfl,
        magnitude_infinityBits, point?]
    · have hgt : ¬2047 * leadingBit + bits.toNat % leadingBit ≤ infinityBits := by
        unfold infinityBits
        omega
      rw [if_neg (mt unpackMantissa_eq_zero_iff.1 hzero), if_neg hgt, point?]

end

section
variable {x : Float} {q : ℚ} {bits : Nat}

lemma exists_magnitude (h : point? x.toModel.unpack = some q) :
    ∃ bits ≤ infinityBits, q = magnitude bits ∨ q = -magnitude bits := by
  have hpoint := (point?_unpack x.toModel.toBits.toBitVec).symm.trans h
  split_ifs at hpoint with hle hpositive
  · exact ⟨_, hle, .inl (Option.some.inj hpoint).symm⟩
  · exact ⟨_, hle, .inr (Option.some.inj hpoint).symm⟩

/-- A number without a sign lies at the magnitude of its bits. -/
lemma point?_eq_of_lt (hx : x.toBits.toNat < signBit) (h : point? x.toModel.unpack = some q) :
    x.toBits.toNat ≤ infinityBits ∧ q = magnitude x.toBits.toNat := by
  have hbits : x.toModel.toBits.toBitVec.toNat < signBit := hx
  have hpoint := (point?_unpack x.toModel.toBits.toBitVec).symm.trans h
  rw [if_pos hbits, Nat.mod_eq_of_lt hbits] at hpoint
  split_ifs at hpoint with hle
  exact ⟨hle, (Option.some.inj hpoint).symm⟩

lemma toBits_ofBits_ofNat (h : bits ≤ infinityBits) :
    (Float.ofBits (UInt64.ofNat bits)).toBits.toNat = bits := by
  have hbits : (UInt64.ofNat bits).toNat = bits := by
    rw [UInt64.toNat_ofNat']
    unfold infinityBits leadingBit at h
    omega
  rw [toBits_ofBits, hbits]
  rw [hbits]
  exact (Nat.mod_le _ _).trans h

lemma point?_ofBits (h : bits ≤ infinityBits) :
    point? (Float.ofBits (UInt64.ofNat bits)).toModel.unpack = some (magnitude bits) := by
  have hbits : (Float.ofBits (UInt64.ofNat bits)).toModel.toBits.toBitVec.toNat = bits :=
    toBits_ofBits_ofNat h
  have hlt : bits < signBit := h.trans_lt (by decide)
  have hpoint := point?_unpack (Float.ofBits (UInt64.ofNat bits)).toModel.toBits.toBitVec
  rwa [hbits, Nat.mod_eq_of_lt hlt, if_pos h, if_pos hlt] at hpoint

end

end Timeline.Number
