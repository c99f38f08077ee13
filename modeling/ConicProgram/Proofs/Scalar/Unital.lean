import ConicProgram.Proofs.Scalar.Binary64

namespace ConicProgram

class Unital (α : Type) [Scalar α] : Prop where
  one_mul (x : α) : 1 * x = x

namespace Binary64

open Float.Model (Format totalExponent)
open Float.Model.UnpackedFloat

variable {s : Sign} {m n : Nat} {e : Int}

theorem log2_two_pow_mul (hm : m ≠ 0) : (2 ^ n * m).log2 = m.log2 + n := by
  rw [Nat.log2_eq_iff (Nat.mul_ne_zero (by positivity) hm), Nat.pow_add, Nat.pow_succ', Nat.pow_add]
  have ⟨hl, hu⟩ := (Nat.log2_eq_iff hm).mp rfl
  constructor
  · calc 2 ^ m.log2 * 2 ^ n ≤ m * 2 ^ n := Nat.mul_le_mul_right _ hl
      _ = 2 ^ n * m := Nat.mul_comm ..
  · calc 2 ^ n * m < 2 ^ n * 2 ^ (m.log2 + 1) := Nat.mul_lt_mul_of_pos_left hu (by positivity)
      _ = 2 * (2 ^ m.log2 * 2 ^ n) := by ring

-- Shifting out zeros leaves nothing to round.
theorem exact_shiftRight (n : Nat) :
    (⟨2 ^ n * m, false, false⟩ : ExtendedMantissa) >>> n = ⟨m, false, false⟩ := by
  show n.repeat ExtendedMantissa.shiftRightOne _ = _
  induction n generalizing m
  case zero => simp [Nat.repeat]
  case succ n hi =>
    rw [Nat.repeat, Nat.pow_succ, Nat.mul_assoc, hi]
    simp [ExtendedMantissa.shiftRightOne]

-- The exponent is the one that rounding would give.
def Canonical (m : Nat) (e : Int) : Prop :=
  Format.binary64.targetExponent (totalExponent m e) = e

theorem shiftToTargetExponent_of_canonical (h : Canonical m e) (hm : m ≠ 0) :
    shiftToTargetExponent .binary64 (2 ^ n * m) (e - n) .exact = (⟨m, false, false⟩, e) := by
  have ht : totalExponent (2 ^ n * m) (e - n) = totalExponent m e := by
    rw [totalExponent, totalExponent, log2_two_pow_mul hm]
    omega
  have hn : (e - (e - n)).toNat = n := by omega
  rw [shiftToTargetExponent, ht, h, shiftToExponent, hn,
    ExtendedMantissa.ofMantissaAndAccuracy, exact_shiftRight]
  exact Prod.ext rfl (by omega)

theorem roundWithAccuracy_of_canonical (h : Canonical m e) (hm : 0 < m) (n : Nat) :
    roundWithAccuracy .binary64 s (2 ^ n * m) (e - n) .exact = .finite s m e hm := by
  have hf := shiftToTargetExponent_of_canonical (n := n) h (Nat.ne_of_gt hm)
  have hs := shiftToTargetExponent_of_canonical (n := 0) h (Nat.ne_of_gt hm)
  rw [Nat.pow_zero, Nat.one_mul, Int.natCast_zero, Int.sub_zero] at hs
  rw [roundWithAccuracy, hf]
  dsimp only [ExtendedMantissa.roundedMantissa, ExtendedMantissa.accuracy,
    Accuracy.roundToNearestEven]
  rw [hs]
  exact dif_neg (Nat.ne_of_gt hm)

theorem canonical_of_unpack {b : BitVec Format.binary64.numBits} {hm : 0 < m}
    (h : unpack .binary64 b = .finite s m e hm) : Canonical m e := by
  have hmin : Format.binary64.minExponent = -1074 := rfl
  have hbits : Format.binary64.mantissaBits = 53 := rfl
  have hbias : Format.binary64.exponentBias = 1023 := rfl
  rw [Canonical, Format.targetExponent, totalExponent, hmin, hbits]
  unfold unpack at h
  dsimp only at h
  rw [hbias] at h
  split at h
  case isTrue => split at h <;> cases h
  case isFalse hx =>
    split at h
    case isTrue hz =>
      split at h
      case isTrue => cases h
      case isFalse hmb =>
        have hl (h : 0 < (unpackMantissa b).toNat) : (unpackMantissa b).toNat.log2 < 52 :=
          (Nat.log2_lt (Nat.ne_of_gt h)).mpr (unpackMantissa b).isLt
        cases h
        have hl := hl hm
        simp [hz]
        omega
    case isFalse hz =>
      have hl := log2_one_append (m := unpackMantissa b)
      have hz : (unpackExponent b).toNat ≠ 0 := fun h => hz (BitVec.eq_of_toNat_eq h)
      cases h
      rw [hl]
      omega

-- One is a power of two, so that a product with it is shifted back to the other factor.
theorem mul_one_unpack (b : BitVec Format.binary64.numBits) :
    mul .binary64 (.finite .positive (2 ^ 52) (-52) (by decide)) (unpack .binary64 b) =
      unpack .binary64 b := by
  have hs : ∀ s : Sign, .positive * s = s := by rintro (_ | _) <;> rfl
  cases h : unpack .binary64 b
  case notANumber => rfl
  case infinity s => exact congrArg _ (hs s)
  case zero s => exact congrArg _ (hs s)
  case finite s m e hm =>
    have hr := roundWithAccuracy_of_canonical (s := s) (canonical_of_unpack h) hm 52
    rw [mul, hs, show -52 + e = e - (52 : Nat) by omega]
    exact hr

theorem one_mul (x : Float) : 1 * x = x := by
  have h : 1 * x = Float.ofModel (.pack (mul .binary64
    (.finite .positive (2 ^ 52) (-52) (by decide)) x.toModel.unpack)) := rfl
  rw [h, Float.Model.unpack, mul_one_unpack]
  exact congrArg Float.ofModel (pack_unpack_model x.toModel)

end Binary64

instance : Unital Float where
  one_mul := Binary64.one_mul

section Exact

variable {K : Type} [Field K] [LinearOrder K] [FloorRing K]

attribute [local instance] Scalar.exact

instance Unital.exact : Unital K where
  one_mul := fun x => by simp

end Exact
end ConicProgram
