import Mathlib
import ConicProgram.Proofs.Scalar.Numeric

namespace ConicProgram.Binary64

open Float.Model (Format)
open Float.Model.UnpackedFloat

-- The operations on floats unpack the words, compute and pack the result again, so what is needed
-- first is that nothing is lost on the way.
section Packing

variable {s : Sign} {x : BitVec 11} {m : BitVec 52}

theorem toNat_one_append : (1#1 ++ m).toNat = 2 ^ 52 + m.toNat := by
  rw [BitVec.toNat_append, ← Nat.shiftLeft_add_eq_or_of_lt m.isLt]
  rfl

theorem log2_one_append : (1#1 ++ m).toNat.log2 = 52 := by
  have hm := m.isLt
  have hn := toNat_one_append (m := m)
  rw [Nat.log2_eq_iff (by omega)]
  omega

theorem pack_subnormal (h : 0 < m.toNat) :
    pack .binary64 (.finite s m.toNat (-1074) h) = packComponents .binary64 s 0 m := by
  have hl : m.toNat.log2 < 52 := (Nat.log2_lt (Nat.ne_of_gt h)).mpr m.isLt
  have hl : m.toNat.log2 ≠ 52 := by omega
  simp [pack, Format.mantissaBits, Format.exponentBias, hl]

theorem pack_normal (h : 0 < (1#1 ++ m).toNat) (hx : x ≠ -1#11) :
    pack .binary64 (.finite s (1#1 ++ m).toNat ((x.toNat : Int) - 1075) h) =
      packComponents .binary64 s x m := by
  have hm : m.toNat < 2 ^ 52 := m.isLt
  have hl := log2_one_append (m := m)
  have hx : ¬2047 ≤ x.toNat := by
    have := x.isLt
    have : x.toNat ≠ 2047 := by simpa [← BitVec.toNat_inj] using hx
    omega
  have hb : BitVec.ofNat 52 (1#1 ++ m).toNat = m := by
    rw [← BitVec.toNat_inj, toNat_one_append]
    simpa using hm
  have he : ((x.toNat : Int) - 1075 + 1023 + 52).toNat = x.toNat := by omega
  simp [pack, Format.mantissaBits, Format.exponentBias, hl, he, hx, hb]

theorem packComponents_parts (b : BitVec Format.binary64.numBits) :
    packComponents .binary64 (Sign.ofBitVec (unpackSign b)) (unpackExponent b)
      (unpackMantissa b) = b := by
  have hs : ∀ v : BitVec 1, (Sign.ofBitVec v).toBitVec = v := by decide
  ext i hi
  simp [packComponents, hs, unpackSign, unpackExponent, unpackMantissa]
  grind

theorem pack_unpack {b : BitVec Format.binary64.numBits} (h : Format.binary64.Valid b) :
    pack .binary64 (unpack .binary64 b) = b := by
  have hb := packComponents_parts b
  unfold unpack
  dsimp only
  split
  case isTrue hx =>
    split
    case isTrue hm => rwa [hx, hm] at hb
    case isFalse hm => exact (h.eq_packedNaN hx hm).symm
  case isFalse hx =>
    split
    case isTrue hz =>
      split
      case isTrue hm => rwa [hz, hm] at hb
      case isFalse hm =>
        rw [hz] at hb ⊢
        exact (pack_subnormal _).trans hb
    case isFalse hz => exact (pack_normal _ hx).trans hb

theorem unpackSign_packComponents {f : Format} {x : BitVec f.exponentBits}
    {m : BitVec f.mantissaBitsWithoutImplicit} :
    Sign.ofBitVec (unpackSign (packComponents f s x m)) = s := by
  have hs : Sign.ofBitVec s.toBitVec = s := by cases s <;> rfl
  suffices unpackSign (packComponents f s x m) = s.toBitVec by rw [this, hs]
  ext i hi
  simp [unpackSign, packComponents, BitVec.getLsbD_append]
  grind

theorem unpack_eq_notANumber_iff {b : BitVec Format.binary64.numBits} :
    unpack .binary64 b = .notANumber ↔ unpackExponent b = -1#11 ∧ unpackMantissa b ≠ 0#52 := by
  unfold unpack
  dsimp only
  split
  case isTrue hx => split <;> simp [*]
  case isFalse hx =>
    split
    case isTrue => split <;> exact ⟨nofun, fun h => absurd h.1 hx⟩
    case isFalse => exact ⟨nofun, fun h => absurd h.1 hx⟩

-- What is packed is a number unless it was none before.
theorem unpack_pack_ne_notANumber {u : Float.Model.UnpackedFloat} (h : u ≠ .notANumber) :
    unpack .binary64 (pack .binary64 u) ≠ .notANumber := by
  rw [ne_eq, unpack_eq_notANumber_iff]
  fun_cases pack Format.binary64 u
  case case1 => exact absurd rfl h
  case case2 => simp [packedInfinity]
  case case3 => simp [packedZero]
  case case4 => simp [packedInfinity]
  case case5 m e _ _ x hx _ =>
    have hx : x % 2048 ≠ 2047 := by
      simp only [Nat.reducePow] at hx
      omega
    simp [← BitVec.toNat_inj, hx]
  case case6 => simp

-- The sign stands in a bit of its own.
theorem neg_unpack (b : BitVec Format.binary64.numBits) :
    neg (unpack .binary64 b) = unpack .binary64 (packComponents .binary64
      (-Sign.ofBitVec (unpackSign b)) (unpackExponent b) (unpackMantissa b)) := by
  simp only [unpack, unpackSign_packComponents, unpackExponent_packComponents,
    unpackMantissa_packComponents]
  split
  case isTrue => split <;> rfl
  case isFalse =>
    split
    case isTrue => split <;> rfl
    case isFalse => rfl

theorem unpack_pack_neg {b : BitVec Format.binary64.numBits}
    (h : unpack .binary64 b ≠ .notANumber) :
    unpack .binary64 (pack .binary64 (neg (unpack .binary64 b))) = neg (unpack .binary64 b) := by
  rw [ne_eq, unpack_eq_notANumber_iff] at h
  rw [neg_unpack, pack_unpack ⟨fun hx hm => absurd ⟨by simpa using hx, by simpa using hm⟩ h⟩]

theorem unpack_pack_zero (s : Sign) :
    unpack .binary64 (pack .binary64 (.zero s)) = .zero s := by
  cases s <;> rfl

end Packing

section Order

variable {a b : Float.Model.UnpackedFloat}

-- Numbers are equal if they are the same, and zeros are equal whatever their signs.
theorem compare_eq_some_eq_iff : a.compare b = some .eq ↔
    (∃ s t, a = .zero s ∧ b = .zero t) ∨ a = b ∧ a ≠ .notANumber := by
  rcases a with (_ | _) | _ | (_ | _) | ⟨_ | _, _, _, _⟩ <;>
    rcases b with (_ | _) | _ | (_ | _) | ⟨_ | _, _, _, _⟩ <;>
    simp [Float.Model.UnpackedFloat.compare, Ordering.swap_eq_eq, Ordering.then_eq_eq, and_comm]
  all_goals rfl

theorem compare_swap : (a.compare b).map Ordering.swap = b.compare a := by
  rcases a with (_ | _) | _ | (_ | _) | ⟨_ | _, _, _, _⟩ <;>
    rcases b with (_ | _) | _ | (_ | _) | ⟨_ | _, _, _, _⟩ <;>
    simp [Float.Model.UnpackedFloat.compare, Ordering.swap_then, ← Std.OrientedCmp.eq_swap]
  all_goals rfl

theorem compare_eq_none_iff : a.compare b = none ↔ a = .notANumber ∨ b = .notANumber := by
  rcases a with (_ | _) | _ | (_ | _) | ⟨_ | _, _, _, _⟩ <;>
    rcases b with (_ | _) | _ | (_ | _) | ⟨_ | _, _, _, _⟩ <;>
    simp [Float.Model.UnpackedFloat.compare]

-- Nothing lies beyond an infinity.
theorem isFinite_of_compare {c : Float.Model.UnpackedFloat} (h₁ : a.compare b = some .lt)
    (h₂ : b.compare c = some .lt) : b.isFinite := by
  rcases b with (_ | _) | _ | _ | _
  case infinity.negative =>
    rcases a with (_ | _) | _ | (_ | _) | ⟨_ | _, _, _, _⟩ <;> cases h₁
  case infinity.positive =>
    rcases c with (_ | _) | _ | (_ | _) | ⟨_ | _, _, _, _⟩ <;> cases h₂
  case notANumber => cases h₂
  case zero => rfl
  case finite => rfl

theorem neg_ne_notANumber (h : a ≠ .notANumber) : neg a ≠ .notANumber := by
  cases a <;> simp_all [neg]

theorem neg_neg (a : Float.Model.UnpackedFloat) : neg (neg a) = a := by
  rcases a with (_ | _) | _ | (_ | _) | ⟨_ | _, _, _, _⟩ <;> rfl

theorem zero_add (f : Format) (a : Float.Model.UnpackedFloat) :
    (∃ s t, a = .zero s ∧ add f (.zero .positive) a = .zero t) ∨ add f (.zero .positive) a = a := by
  rcases a with _ | _ | (_ | _) | _
  case zero.negative => exact .inl ⟨_, _, rfl, rfl⟩
  all_goals exact .inr rfl

-- A product with a finite factor is a number if the other factor is.
theorem mul_ne_notANumber {s : Sign} {m : Nat} {e : Int} {h : 0 < m} {f : Format}
    (hb : b ≠ .notANumber) : mul f (.finite s m e h) b ≠ .notANumber := by
  cases b <;> simp_all [mul, roundWithAccuracy]
  split <;> simp

end Order

section Float

variable {x y c : Float}

theorem beq_iff : x == y ↔
    (∃ s t, x.toModel.unpack = .zero s ∧ y.toModel.unpack = .zero t) ∨
      x.toModel.unpack = y.toModel.unpack ∧ x.toModel.unpack ≠ .notANumber := by
  rw [← compare_eq_some_eq_iff]
  show (x.toModel.unpack.compare y.toModel.unpack == some .eq) = true ↔ _
  simp

theorem isNumber_iff : Scalar.IsNumber x ↔ x.toModel.unpack ≠ .notANumber := by
  refine beq_iff.trans ⟨?_, fun h => .inr ⟨rfl, h⟩⟩
  rintro (⟨s, t, h, _⟩ | ⟨_, h⟩)
  · simp [h]
  · exact h

theorem unpack_neg (h : x.toModel.unpack ≠ .notANumber) :
    (-x).toModel.unpack = neg x.toModel.unpack :=
  unpack_pack_neg h

theorem beq_symm (h : x == y) : y == x := by
  rw [beq_iff] at h ⊢
  rcases h with ⟨s, t, hx, hy⟩ | ⟨he, hx⟩
  · exact .inl ⟨t, s, hy, hx⟩
  · exact .inr ⟨he.symm, he ▸ hx⟩

theorem beq_trans {z : Float} (h₁ : x == y) (h₂ : y == z) : x == z := by
  rw [beq_iff] at h₁ h₂ ⊢
  rcases h₁ with ⟨s, t, hx, hy⟩ | ⟨he, hx⟩
  · rcases h₂ with ⟨_, u, _, hz⟩ | ⟨he, _⟩
    · exact .inl ⟨s, u, hx, hz⟩
    · exact .inl ⟨s, t, hx, he ▸ hy⟩
  · rw [he]
    rwa [he] at hx

theorem neg_congr (h : x == y) : -x == -y := by
  rw [beq_iff] at h ⊢
  rcases h with ⟨s, t, hx, hy⟩ | ⟨he, hx⟩
  · left
    rw [unpack_neg (by simp [hx]), unpack_neg (by simp [hy]), hx, hy]
    exact ⟨_, _, rfl, rfl⟩
  · right
    rw [unpack_neg hx, unpack_neg (he ▸ hx), he]
    exact ⟨rfl, neg_ne_notANumber (he ▸ hx)⟩

theorem neg_neg_beq (h : Scalar.IsNumber x) : - -x == x := by
  rw [isNumber_iff] at h
  have hn : (-x).toModel.unpack ≠ .notANumber := by
    rw [unpack_neg h]
    exact neg_ne_notANumber h
  rw [beq_iff, unpack_neg hn, unpack_neg h, neg_neg]
  exact .inr ⟨rfl, h⟩

theorem pack_unpack_model (m : Float.Model) : Float.Model.pack m.unpack = m := by
  have h := pack_unpack m.valid
  rcases m with ⟨b, _⟩
  simpa [Float.Model.pack, Float.Model.unpack] using congrArg UInt64.ofBitVec h

theorem zero_add_beq (h : Scalar.IsNumber x) : (0 : Float) + x == x := by
  have hz : ((0 : Float) + x).toModel.unpack =
      (Float.Model.pack (add .binary64 (.zero .positive) x.toModel.unpack)).unpack := rfl
  rw [beq_iff, hz]
  rcases zero_add .binary64 x.toModel.unpack with ⟨s, t, hx, hs⟩ | hx
  · left
    rw [hs]
    exact ⟨t, s, unpack_pack_zero t, hx⟩
  · right
    rw [hx, pack_unpack_model]
    exact ⟨rfl, isNumber_iff.mp h⟩

-- The unpacked factor is finite, as that of one and of minus one is.
theorem mul_congr {s : Sign} {m : Nat} {e : Int} {hm : 0 < m}
    (hc : c.toModel.unpack = .finite s m e hm) (h : x == y) : c * x == c * y := by
  have hu (z : Float) : (c * z).toModel.unpack =
      unpack .binary64 (pack .binary64 (mul .binary64 (.finite s m e hm) z.toModel.unpack)) := by
    rw [← hc]
    rfl
  rw [beq_iff] at h ⊢
  rw [hu x, hu y]
  rcases h with ⟨s, t, hx, hy⟩ | ⟨he, hx⟩
  · left
    rw [hx, hy]
    exact ⟨_, _, unpack_pack_zero _, unpack_pack_zero _⟩
  · right
    rw [he]
    exact ⟨rfl, unpack_pack_ne_notANumber (mul_ne_notANumber (he ▸ hx))⟩

theorem lt_iff : x < y ↔ x.toModel.unpack.compare y.toModel.unpack = some .lt := by
  refine (decide_eq_true_iff (p := x.toModel < y.toModel)).trans ?_
  show (x.toModel.unpack.compare y.toModel.unpack == some .lt) = true ↔ _
  simp

theorem le_iff : x ≤ y ↔ (x.toModel.unpack.compare y.toModel.unpack).any (·.isLE) :=
  decide_eq_true_iff (p := x.toModel ≤ y.toModel)

theorem isNumber_of_lt (h : x < y) : Scalar.IsNumber x ∧ Scalar.IsNumber y := by
  rw [isNumber_iff, isNumber_iff, ← not_or, ← compare_eq_none_iff, lt_iff.mp h]
  exact Option.some_ne_none _

theorem isFinite_of_lt_of_lt {z : Float} (h₁ : y < x) (h₂ : x < z) : x.isFinite :=
  isFinite_of_compare (lt_iff.mp h₁) (lt_iff.mp h₂)

-- What is no number is neither within a limit nor above it.
theorem not_le_iff : ¬x ≤ y ↔ y < x ∨ ¬Scalar.IsNumber x ∨ ¬Scalar.IsNumber y := by
  rw [lt_iff, le_iff, isNumber_iff, isNumber_iff, not_not, not_not, ← compare_eq_none_iff,
    ← compare_swap (a := x.toModel.unpack)]
  cases x.toModel.unpack.compare y.toModel.unpack
  case none => simp
  case some o => cases o <;> simp

end Float

instance : Numeric Float where
  symm := beq_symm
  trans := beq_trans
  zero_isNumber := by rw [isNumber_iff]; exact nofun
  one_isNumber := by rw [isNumber_iff]; exact nofun
  neg_congr := neg_congr
  neg_neg := neg_neg_beq
  neg_zero := by rw [beq_iff]; exact .inl ⟨.negative, .positive, rfl, rfl⟩
  zero_add := zero_add_beq
  one_mul_congr :=
    mul_congr (show (1 : Float).toModel.unpack = .finite .positive (2 ^ 52) (-52) _ from rfl)
  one_mul_zero := by rw [beq_iff]; exact .inl ⟨.positive, .positive, rfl, rfl⟩
  neg_one_mul_congr :=
    mul_congr (show (-1 : Float).toModel.unpack = .finite .negative (2 ^ 52) (-52) _ from rfl)
  neg_one_mul_zero := by rw [beq_iff]; exact .inl ⟨.negative, .positive, rfl, rfl⟩
  isNumber_of_lt := isNumber_of_lt

end ConicProgram.Binary64
