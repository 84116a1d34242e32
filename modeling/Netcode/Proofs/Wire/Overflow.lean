import Mathlib
import Netcode.Delta.Field
import Netcode.Proofs.Wire.Values

set_option autoImplicit false

namespace Netcode

namespace Single

variable (x : Single)

theorem exponentField_lt : x.exponentField < 256 := by
  unfold exponentField
  rw [UInt32.toNat_and]
  exact Nat.lt_succ_of_le Nat.and_le_right

theorem fractionField_lt : x.fractionField < 2 ^ 23 := by
  unfold fractionField
  have f : (0x7FFFFF : UInt32).toNat = 2 ^ 23 - 1 := rfl
  rw [UInt32.toNat_and, f, Nat.and_two_pow_sub_one_eq_mod]
  exact Nat.mod_lt _ (by norm_num)

theorem toNat_bits :
    x.bits.toNat = (if x.signBit then 2 ^ 31 else 0) + x.exponentField * 2 ^ 23 + x.fractionField := by
  have bound := x.bits.toNat_lt
  unfold signBit exponentField fractionField
  have sign : (x.bits >>> 31 == 1) = decide (x.bits.toNat / 2 ^ 31 = 1) := by
    rw [Bool.eq_iff_iff, beq_iff_eq, decide_eq_true_iff, ← UInt32.toNat_inj, UInt32.toNat_shiftRight]
    simp [Nat.shiftRight_eq_div_pow]
  rw [sign, UInt32.toNat_and, UInt32.toNat_and, UInt32.toNat_shiftRight]
  simp only [Nat.shiftRight_eq_div_pow]
  have e : (0xFF : UInt32).toNat = 2 ^ 8 - 1 := rfl
  have f : (0x7FFFFF : UInt32).toNat = 2 ^ 23 - 1 := rfl
  rw [e, f, Nat.and_two_pow_sub_one_eq_mod, Nat.and_two_pow_sub_one_eq_mod]
  split_ifs <;> simp_all <;> omega

/-- A float whose integer part lies in `[2 ^ 31 - 4096, 2 ^ 31]` is one of the patterns from
`0x4EFFFFE0` to `0x4F000000`: its exponent is that of `2 ^ 30` or of `2 ^ 31`. -/
theorem bits_near_of_truncate? {n : Int} (h : x.truncate? = some n) (low : 2 ^ 31 - 4096 ≤ n)
    (high : n ≤ 2 ^ 31) : 0x4EFFFFE0 ≤ x.bits.toNat ∧ x.bits.toNat ≤ 0x4F000000 := by
  have fields := x.toNat_bits
  have exponentBound := x.exponentField_lt
  have fractionBound := x.fractionField_lt
  have finite : x.exponentField ≠ 255 := by
    intro infinite
    simp [truncate?, infinite] at h
  simp only [truncate?, finite, ↓reduceIte, Option.some.injEq, significand, Nat.pow_eq] at h
  have positive : x.signBit = false := by
    cases sign : x.signBit
    · rfl
    · simp only [sign, ↓reduceIte] at h
      omega
  simp only [positive, Bool.false_eq_true, ↓reduceIte] at h fields
  have scale : x.scaleExponent = max x.exponentField 1 := rfl
  generalize x.scaleExponent = e at h scale
  generalize hs : (if x.exponentField = 0 then x.fractionField else x.fractionField + 2 ^ 23) = s at h
  have sBound : s < 2 ^ 24 := by
    rw [← hs]
    split_ifs <;> omega
  rcases (by omega : x.exponentField ≤ 156 ∨ (157 ≤ x.exponentField ∧ x.exponentField ≤ 158) ∨
    159 ≤ x.exponentField) with small | middle | large
  · -- below `2 ^ 30` whatever the fraction
    split_ifs at h with scaled
    · have pow : 2 ^ (e - 150) ≤ 2 ^ 6 := Nat.pow_le_pow_right (by norm_num) (by omega)
      have le := Nat.mul_le_mul_left s pow
      omega
    · have le := Nat.div_le_self s (2 ^ (150 - e))
      omega
  · -- the exponents of `2 ^ 30` and `2 ^ 31`, where the fraction decides
    have normal : s = x.fractionField + 2 ^ 23 := by rw [← hs, if_neg (by omega)]
    rcases (by omega : e = 157 ∨ e = 158) with rfl | rfl <;> norm_num at h <;> omega
  · -- `2 ^ 32` at least
    have normal : s = x.fractionField + 2 ^ 23 := by rw [← hs, if_neg (by omega)]
    have pow : 2 ^ 9 ≤ 2 ^ (e - 150) := Nat.pow_le_pow_right (by norm_num) (by omega)
    rw [if_pos (by omega)] at h
    have le := Nat.mul_le_mul_left s pow
    omega

theorem toIntClamped_mem {lo hi : Int} (nonpos : lo ≤ 0) (nonneg : 0 ≤ hi) :
    lo ≤ x.toIntClamped lo hi ∧ x.toIntClamped lo hi ≤ hi := by
  unfold toIntClamped
  split
  · omega
  · split
    · omega
    · split <;> omega

theorem toInt_toInt32Sat : x.toInt32Sat.toInt = x.toIntClamped (-2 ^ 31) (2 ^ 31 - 1) := by
  have within : -2 ^ 31 ≤ x.toIntClamped (-2 ^ 31) (2 ^ 31 - 1) ∧ x.toIntClamped (-2 ^ 31) (2 ^ 31 - 1) ≤ 2 ^ 31 - 1 :=
    x.toIntClamped_mem (by norm_num) (by norm_num)
  have saturated : x.toInt32Sat = Int32.ofInt (x.toIntClamped (-2 ^ 31) (2 ^ 31 - 1)) := rfl
  rw [saturated, Int32.toInt_ofInt_of_le (by omega) (by omega)]

theorem truncate?_of_toInt32Sat (low : 0 < x.toInt32Sat.toInt) (high : x.toInt32Sat.toInt < 2 ^ 31 - 1) :
    x.truncate? = some x.toInt32Sat.toInt := by
  rw [toInt_toInt32Sat] at low high ⊢
  unfold toIntClamped at low high ⊢
  by_cases nan : x.isNaN
  · simp only [nan, ↓reduceIte] at low
    omega
  · simp only [nan, Bool.false_eq_true, ↓reduceIte] at low high ⊢
    rcases present : x.truncate? with _ | n
    · simp only [present] at low high
      by_cases sign : x.signBit <;> simp only [sign, ↓reduceIte, Bool.false_eq_true] at low high <;> omega
    · simp only [present] at low high ⊢
      congr 1
      omega

theorem eqValue_comm (y : Single) : x.eqValue y = y.eqValue x := by
  unfold eqValue
  cases x.isNaN <;> cases y.isNaN <;> simp [eq_comm, Bool.and_comm]

/-- The integral floats from `2 ^ 31 - 4096` to `2 ^ 31`. -/
def NearInt32Top : Prop :=
  ∃ n : Int, 2 ^ 31 - 4096 ≤ n ∧ n ≤ 2 ^ 31 ∧ x.truncate? = some n ∧ ofInt64 (.ofInt n) = x

/-- The 33 floats from `2 ^ 31 - 4096` to `2 ^ 31`, `128` apart, as the shortcut sees them. -/
theorem nearInt32Top_table : ∀ k : Fin 33,
    let y : Single := ⟨0x4EFFFFE0 + k.val.toUInt32⟩
    2 ^ 31 - 4096 ≤ y.toInt32Sat.toInt ∧ (ofInt32 y.toInt32Sat).eqValue y ∧
      y.truncate? = some (2 ^ 31 - 4096 + 128 * (k.val : Int)) ∧
      ofInt64 (.ofInt (2 ^ 31 - 4096 + 128 * (k.val : Int))) = y := by
  decide +kernel

theorem eq_of_bits_near (low : 0x4EFFFFE0 ≤ x.bits.toNat) (high : x.bits.toNat ≤ 0x4F000000) :
    ∃ k : Fin 33, x = ⟨0x4EFFFFE0 + k.val.toUInt32⟩ := by
  refine ⟨⟨x.bits.toNat - 0x4EFFFFE0, by omega⟩, Wire.single_eq_of_bits_eq ?_⟩
  have literal : (0x4EFFFFE0 : UInt32).toNat = 0x4EFFFFE0 := rfl
  rw [← UInt32.toNat_inj, UInt32.toNat_add, Nat.toUInt32_eq, UInt32.toNat_ofNat', literal]
  dsimp only
  omega

theorem nearInt32Top_iff_bits : x.NearInt32Top ↔ 0x4EFFFFE0 ≤ x.bits.toNat ∧ x.bits.toNat ≤ 0x4F000000 := by
  constructor
  · rintro ⟨n, low, high, truncated, -⟩
    exact x.bits_near_of_truncate? truncated low high
  · rintro ⟨low, high⟩
    obtain ⟨k, rfl⟩ := x.eq_of_bits_near low high
    obtain ⟨-, -, truncated, back⟩ := nearInt32Top_table k
    exact ⟨_, by omega, by omega, truncated, back⟩

end Single

namespace Wire

section Width

variable (w : Int32)

theorem toInt_magnitude_iff :
    (if w < 0 then -w else w).toInt = |w.toInt| ↔ w ≠ Int32.minValue := by
  have low := Int32.le_toInt w
  have high := Int32.toInt_lt w
  have least : w = Int32.minValue ↔ w.toInt = -2 ^ 31 := by
    rw [← Int32.toInt_inj]
    rfl
  rw [Ne, least]
  split_ifs with negative
  · rw [Int32.lt_iff_toInt_lt, Int32.toInt_zero] at negative
    rw [Int32.toInt_neg, Int.bmod_def, abs_of_neg negative]
    split_ifs <;> omega
  · rw [Int32.lt_iff_toInt_lt, Int32.toInt_zero] at negative
    rw [abs_of_nonneg (by omega)]
    omega

/-- The width read as unsigned is `|w|`, the least 32-bit integer included: its negation wraps to
itself, whose unsigned reading is `2 ^ 31`. -/
theorem toNat_widthOf : (widthOf w).toNat = w.toInt.natAbs := by
  unfold widthOf
  have low := Int32.le_toInt w
  have high := Int32.toInt_lt w
  rw [← Int32.toNat_toBitVec]
  split_ifs with negative
  · rw [Int32.lt_iff_toInt_lt, Int32.toInt_zero] at negative
    have signed := BitVec.toInt_eq_toNat_cond (-w).toBitVec
    have bound := (-w).toBitVec.isLt
    rw [Int32.toInt_toBitVec, Int32.toInt_neg, Int.bmod_def] at signed
    split_ifs at signed <;> omega
  · rw [Int32.lt_iff_toInt_lt, Int32.toInt_zero] at negative
    have signed := BitVec.toInt_eq_toNat_cond w.toBitVec
    have bound := w.toBitVec.isLt
    rw [Int32.toInt_toBitVec] at signed
    split_ifs at signed <;> omega

end Width

section Bias

variable (t : Int32) {bias : Int32} (four : bias.toInt = 4096)
include four

theorem toInt_add_bias_iff : (t + bias).toInt = t.toInt + 4096 ↔ t.toInt < 2 ^ 31 - 4096 := by
  rw [Int32.toInt_add, four, Int.bmod_def]
  have low := Int32.le_toInt t
  have high := Int32.toInt_lt t
  constructor <;> intro fits <;> split_ifs at * <;> omega

/-- The shortcut's range test on the wrapped sum decides as on the exact one: a sum that wraps is
negative. -/
theorem shortcut_iff : (0 ≤ t + bias ∧ t + bias < 8192) ↔ 0 ≤ t.toInt + 4096 ∧ t.toInt + 4096 < 8192 := by
  have limit : (8192 : Int32).toInt = 8192 := by decide
  rw [Int32.le_iff_toInt_le, Int32.lt_iff_toInt_lt, Int32.toInt_add, four, Int.bmod_def, Int32.toInt_zero,
    limit]
  have low := Int32.le_toInt t
  have high := Int32.toInt_lt t
  split_ifs <;> omega

theorem shortcut_and_iff (P Q : Prop) :
    (P ∧ 0 ≤ t + bias ∧ t + bias < 8192 ∧ Q) ↔ (P ∧ 0 ≤ t.toInt + 4096 ∧ t.toInt + 4096 < 8192 ∧ Q) :=
  and_congr_right fun _ => by rw [← and_assoc, shortcut_iff t four, and_assoc]

theorem toInt64_add_bias (fits : 0 ≤ t.toInt + 4096 ∧ t.toInt + 4096 < 8192) :
    (t + bias).toInt64 = .ofInt (t.toInt + 4096) := by
  have exact := (toInt_add_bias_iff t four).mpr (by omega)
  rw [← Int64.toInt_inj, Int32.toInt_toInt64, exact, Int64.toInt_ofInt_of_le (by omega) (by omega)]

/-- The float shortcut reaches its biased sum when the truncation converts back to the value, and
the sum overflows there exactly for the integral floats from `2 ^ 31 - 4096` to `2 ^ 31`. -/
theorem reachesOverflow_iff (x : Single) :
    ((Single.ofInt32 x.toInt32Sat).eqValue x ∧ (x.toInt32Sat + bias).toInt ≠ x.toInt32Sat.toInt + 4096) ↔
      x.NearInt32Top := by
  rw [Ne, toInt_add_bias_iff _ four, not_lt, Single.nearInt32Top_iff_bits]
  constructor
  · rintro ⟨back, large⟩
    by_cases saturated : x.toInt32Sat = Int32.maxValue
    · -- the value converts back from the largest integer, so it is `2 ^ 31`
      have top : Single.ofInt32 Int32.maxValue = ⟨0x4F000000⟩ := by decide
      rw [saturated, top, Single.eqValue_comm] at back
      have same := bits_eq_of_eqValue back (by decide)
      simp only [same]
      decide
    · have below : x.toInt32Sat.toInt < 2 ^ 31 - 1 := by
        have high := Int32.toInt_lt x.toInt32Sat
        have differs : x.toInt32Sat.toInt ≠ Int32.maxValue.toInt := fun same => saturated (Int32.toInt_inj.mp same)
        rw [Int32.toInt_maxValue] at differs
        omega
      exact x.bits_near_of_truncate? (x.truncate?_of_toInt32Sat (by omega) below) large (by omega)
  · rintro ⟨low, high⟩
    obtain ⟨k, rfl⟩ := x.eq_of_bits_near low high
    obtain ⟨large, back, -⟩ := Single.nearInt32Top_table k
    exact ⟨back, large⟩

end Bias

namespace Exact

def width (bits : Int32) : UInt32 :=
  .ofNat bits.toInt.natAbs

def writeBits (value : Int64) (bits : Int32) : Wire Unit :=
  encode value.toUInt64 (width bits)

def readBits (bits : Int32) : Wire Int64 := do
  let width := width bits
  let raw ← decode width
  return if bits < 0 ∧ width < 64 ∧ raw &&& ((1 : UInt64) <<< (width - 1).toUInt64) ≠ 0 then
    (raw ||| ~~~(lowMask width)).toInt64
  else raw.toInt64

def readDeltaKey (key old : UInt32) (bits : Int32) : Wire UInt32 := do
  if !(← readBool) then return old
  let width := width bits
  let keyMask : UInt32 := if width ≥ 32 then ~~~0 else ((1 : UInt32) <<< width) - 1
  let raw ← decode width
  return (raw.toUInt32 ^^^ (key &&& keyMask)) &&& keyMask

/-- The compressed float with its biased sum taken in the integers. -/
def writeFloatCompressed (x : Single) : Wire Unit := do
  let trunc := x.toInt32Sat.toInt
  if x.bits = 0 then writeBool false
  else if (Single.ofInt32 x.toInt32Sat).eqValue x ∧ 0 ≤ trunc + 4096 ∧ trunc + 4096 < 8192 ∧
      ¬(trunc = 0 ∧ x.signBit) then
    writeBool true
    writeBool false
    writeBits (.ofInt (trunc + 4096)) 13
  else
    writeBool true
    writeBool true
    writeFloat x

def writeRegular (v : Single) : Wire Unit := do
  let trunc := v.toInt32Sat.toInt
  if (Single.ofInt32 v.toInt32Sat).eqValue v ∧ 0 ≤ trunc + 4096 ∧ trunc + 4096 < 8192 ∧
      v.bits ≠ 0x80000000 then
    writeBool false
    writeBits (.ofInt (trunc + 4096)) 13
  else
    writeBool true
    writeFloat v

end Exact

theorem toNat_width (w : Int32) : (Exact.width w).toNat = w.toInt.natAbs := by
  have small : w.toInt.natAbs < UInt32.size := by
    have low := Int32.le_toInt w
    have high := Int32.toInt_lt w
    have size : UInt32.size = 2 ^ 32 := rfl
    omega
  rw [Exact.width, UInt32.toNat_ofNat_of_lt' small]

theorem widthOf_eq_width (w : Int32) : widthOf w = Exact.width w := by
  rw [← UInt32.toNat_inj, toNat_widthOf, toNat_width]

theorem writeBits_eq_exact (value : Int64) (w : Int32) : writeBits value w = Exact.writeBits value w := by
  rw [writeBits, Exact.writeBits, widthOf_eq_width]

theorem readBits_eq_exact (w : Int32) : readBits w = Exact.readBits w := by
  simp only [readBits, Exact.readBits, extendSign, widthOf_eq_width]

/-- The width handed back to the reader as a signed width is read as itself: for `2 ^ 31` it wraps
to the least integer, whose width is `2 ^ 31` again and which extends no sign. -/
theorem readBits_width_toInt32 (w : Int32) :
    readBits (Exact.width w).toInt32 = do return (← decode (Exact.width w)).toInt64 := by
  have bound : (Exact.width w).toNat ≤ 2 ^ 31 := by
    have low := Int32.le_toInt w
    have high := Int32.toInt_lt w
    rw [toNat_width]
    omega
  have back : widthOf (Exact.width w).toInt32 = Exact.width w := by
    rw [← UInt32.toNat_inj, toNat_widthOf, ← Int32.toInt_toBitVec, UInt32.toBitVec_toInt32,
      BitVec.toInt_eq_toNat_cond, UInt32.toNat_toBitVec]
    split_ifs <;> omega
  have unextended (raw : UInt64) : extendSign (Exact.width w).toInt32 raw = raw.toInt64 := by
    by_cases negative : (Exact.width w).toInt32 < 0
    · have wide : ¬ widthOf (Exact.width w).toInt32 < 64 := by
        rw [back]
        have large := (Int32.lt_iff_toInt_lt.mp negative)
        rw [← Int32.toInt_toBitVec, UInt32.toBitVec_toInt32, BitVec.toInt_eq_toNat_cond,
          UInt32.toNat_toBitVec] at large
        rw [UInt32.lt_iff_toNat_lt]
        split_ifs at large <;> simp at large ⊢ <;> omega
      simp [extendSign, wide]
    · exact extendSign_of_not_neg negative raw
  simp only [readBits, back, unextended]

theorem readDeltaKey_eq_exact (key old : UInt32) (w : Int32) :
    readDeltaKey key old w = Exact.readDeltaKey key old w := by
  simp only [readDeltaKey, Exact.readDeltaKey, widthOf_eq_width, readBits_width_toInt32, bind_assoc, pure_bind,
    UInt64.toUInt64_toInt64]

theorem writeFloatCompressed_eq_exact (x : Single) : writeFloatCompressed x = Exact.writeFloatCompressed x := by
  have four : floatIntBias.toInt = 4096 := by decide
  have zero : x.toInt32Sat = 0 ↔ x.toInt32Sat.toInt = 0 := by rw [← Int32.toInt_inj, Int32.toInt_zero]
  unfold writeFloatCompressed Exact.writeFloatCompressed
  simp only [shortcut_and_iff x.toInt32Sat four, zero]
  split_ifs with positiveZero taken
  · rfl
  · rw [toInt64_add_bias x.toInt32Sat four ⟨taken.2.1, taken.2.2.1⟩, writeBits_eq_exact]
  · rfl

theorem writeFloatValue_regular_eq_exact (bits : Int32) (v : Single) :
    writeFloatValue bits .regular v = Exact.writeRegular v := by
  have four : regularBias.toInt = 4096 := by decide
  unfold writeFloatValue Exact.writeRegular
  simp only [shortcut_and_iff v.toInt32Sat four]
  split_ifs with taken
  · rw [toInt64_add_bias v.toInt32Sat four ⟨taken.2.1, taken.2.2.1⟩, writeBits_eq_exact]
  · rfl

/-- The encoder's 32-bit arithmetic wraps, at the width `-2 ^ 31` and for the integral floats near
`2 ^ 31`, yet every encoder gives what it gives with exact arithmetic. -/
theorem encoderArithmetic_wrapsHarmlessly (w : Int32) (value : Int64) (key old : UInt32) (bits : Int32)
    (x : Single) :
    ((if w < 0 then -w else w).toInt = |w.toInt| ↔ w ≠ Int32.minValue) ∧
      ((x.bits ≠ 0 ∧ (Single.ofInt32 x.toInt32Sat).eqValue x ∧
          (x.toInt32Sat + floatIntBias).toInt ≠ x.toInt32Sat.toInt + 4096) ↔ x.NearInt32Top) ∧
      (((Single.ofInt32 x.toInt32Sat).eqValue x ∧
          (x.toInt32Sat + regularBias).toInt ≠ x.toInt32Sat.toInt + 4096) ↔ x.NearInt32Top) ∧
      writeBits value w = Exact.writeBits value w ∧ readBits w = Exact.readBits w ∧
      readDeltaKey key old w = Exact.readDeltaKey key old w ∧
      writeFloatCompressed x = Exact.writeFloatCompressed x ∧
      writeFloatValue bits .regular x = Exact.writeRegular x := by
  have compressed := reachesOverflow_iff (by decide : floatIntBias.toInt = 4096) x
  have regular := reachesOverflow_iff (by decide : regularBias.toInt = 4096) x
  -- `+0.0` has the truncation `0`, far from the top, so the zero test changes nothing here
  have nonzero : x.NearInt32Top → x.bits ≠ 0 := by
    intro near zero
    have low := ((Single.nearInt32Top_iff_bits x).mp near).1
    rw [zero] at low
    exact absurd low (by decide)
  refine ⟨toInt_magnitude_iff w, ⟨fun ⟨_, reached⟩ => compressed.mp reached,
    fun near => ⟨nonzero near, compressed.mpr near⟩⟩, regular, writeBits_eq_exact value w, readBits_eq_exact w,
    readDeltaKey_eq_exact key old w, writeFloatCompressed_eq_exact x, writeFloatValue_regular_eq_exact bits x⟩

/-- The edges: the width `-2 ^ 31`, whose negation wraps, and the float `2 ^ 31`, which saturates to
the largest 32-bit integer, still converts back to itself, and so reaches the sum, which wraps. -/
theorem encoderArithmetic_wrapsHarmlessly_edges :
    (if Int32.minValue < 0 then -Int32.minValue else Int32.minValue).toInt ≠ |Int32.minValue.toInt| ∧
      ((⟨0x4F000000⟩ : Single).bits ≠ 0 ∧ (Single.ofInt32 (⟨0x4F000000⟩ : Single).toInt32Sat).eqValue ⟨0x4F000000⟩ ∧
        ((⟨0x4F000000⟩ : Single).toInt32Sat + floatIntBias).toInt ≠
          (⟨0x4F000000⟩ : Single).toInt32Sat.toInt + 4096) := by
  have near : (⟨0x4F000000⟩ : Single).NearInt32Top := ⟨2 ^ 31, by norm_num, le_rfl, by decide, by decide⟩
  obtain ⟨negation, compressed, -⟩ := encoderArithmetic_wrapsHarmlessly Int32.minValue 0 0 0 0 ⟨0x4F000000⟩
  exact ⟨fun same => negation.mp same rfl, compressed.mpr near⟩

end Wire

end Netcode
