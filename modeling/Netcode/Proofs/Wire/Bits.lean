import Mathlib
import Netcode.Wire.Message

set_option autoImplicit false

namespace Netcode

namespace Bits

/-- The low `w` bits of `n`, least significant first. -/
def ofNat : Nat → Nat → List Bool
  | 0, _ => []
  | w + 1, n => decide (n % 2 = 1) :: ofNat w (n / 2)

def toNat : List Bool → Nat
  | [] => 0
  | b :: bs => b.toNat + 2 * toNat bs

def ofBytes (bytes : List UInt8) : List Bool :=
  bytes.flatMap fun b => ofNat 8 b.toNat

@[simp] theorem ofNat_zero (n : Nat) : ofNat 0 n = [] := rfl

@[simp] theorem ofNat_succ (w n : Nat) :
    ofNat (w + 1) n = decide (n % 2 = 1) :: ofNat w (n / 2) := rfl

@[simp] theorem toNat_nil : toNat [] = 0 := rfl

@[simp] theorem toNat_cons (b : Bool) (bs : List Bool) :
    toNat (b :: bs) = b.toNat + 2 * toNat bs := rfl

@[simp] theorem length_ofNat (w n : Nat) : (ofNat w n).length = w := by
  induction w generalizing n with
  | zero => rfl
  | succ w ih => simp [ih]

private theorem toNat_decide_mod_two (n : Nat) : (decide (n % 2 = 1)).toNat = n % 2 := by
  rcases Nat.mod_two_eq_zero_or_one n with even | odd <;> simp [*]

theorem toNat_ofNat (w n : Nat) : toNat (ofNat w n) = n % 2 ^ w := by
  induction w generalizing n with
  | zero => simp [Nat.mod_one]
  | succ w ih =>
    rw [ofNat_succ, toNat_cons, ih, toNat_decide_mod_two, Nat.pow_succ', Nat.mod_mul]

theorem toNat_lt (bs : List Bool) : toNat bs < 2 ^ bs.length := by
  induction bs with
  | nil => simp
  | cons b bs ih =>
    have bit : b.toNat ≤ 1 := Bool.toNat_le b
    rw [toNat_cons, List.length_cons, Nat.pow_succ']
    omega

theorem toNat_append (front back : List Bool) :
    toNat (front ++ back) = toNat front + 2 ^ front.length * toNat back := by
  induction front with
  | nil => simp
  | cons b bs ih =>
    rw [List.cons_append, toNat_cons, toNat_cons, ih, List.length_cons, Nat.pow_succ',
      Nat.mul_assoc, Nat.mul_add]
    omega

theorem ofNat_toNat (bs : List Bool) : ofNat bs.length (toNat bs) = bs := by
  induction bs with
  | nil => rfl
  | cons b bs ih =>
    have bit := Bool.toNat_le b
    have low : (b.toNat + 2 * toNat bs) % 2 = b.toNat := by omega
    have high : (b.toNat + 2 * toNat bs) / 2 = toNat bs := by omega
    rw [List.length_cons, toNat_cons, ofNat_succ, low, high, ih]
    cases b <;> rfl

theorem ofNat_add (w k n : Nat) : ofNat (w + k) n = ofNat w n ++ ofNat k (n / 2 ^ w) := by
  induction w generalizing n with
  | zero => simp
  | succ w ih =>
    rw [Nat.add_right_comm, ofNat_succ, ih, ofNat_succ, List.cons_append, Nat.div_div_eq_div_mul,
      ← Nat.pow_succ']

theorem ofNat_mod_two_pow (w k n : Nat) (within : w ≤ k) : ofNat w (n % 2 ^ k) = ofNat w n := by
  induction w generalizing n k with
  | zero => rfl
  | succ w ih =>
    obtain ⟨k, rfl⟩ : ∃ j, k = j + 1 := ⟨k - 1, by omega⟩
    have low : n % 2 ^ (k + 1) % 2 = n % 2 := by
      rw [Nat.pow_succ', Nat.mod_mul_right_mod]
    have high : n % 2 ^ (k + 1) / 2 = n / 2 % 2 ^ k := by
      rw [Nat.pow_succ', Nat.mod_mul_right_div_self]
    rw [ofNat_succ, ofNat_succ, low, high, ih k (n / 2) (by omega)]

@[simp] theorem ofNat_zero_value (w : Nat) : ofNat w 0 = List.replicate w false := by
  induction w with
  | zero => rfl
  | succ w ih => simp [ih, List.replicate_succ]

theorem ofNat_of_lt (c k n : Nat) (clean : n < 2 ^ c) (wider : c ≤ k) :
    ofNat k n = ofNat c n ++ List.replicate (k - c) false := by
  obtain ⟨j, rfl⟩ : ∃ j, k = c + j := ⟨k - c, by omega⟩
  rw [ofNat_add, Nat.div_eq_of_lt clean, Nat.add_sub_cancel_left, ofNat_zero_value]

@[simp] theorem ofBytes_nil : ofBytes [] = [] := rfl

@[simp] theorem ofBytes_cons (b : UInt8) (bytes : List UInt8) :
    ofBytes (b :: bytes) = ofNat 8 b.toNat ++ ofBytes bytes := rfl

@[simp] theorem ofBytes_append (front back : List UInt8) :
    ofBytes (front ++ back) = ofBytes front ++ ofBytes back := by
  simp [ofBytes]

@[simp] theorem length_ofBytes (bytes : List UInt8) : (ofBytes bytes).length = 8 * bytes.length := by
  induction bytes with
  | nil => rfl
  | cons b bytes ih => simp [ih]; omega

end Bits

theorem one_shiftLeft_toNat (n : UInt32) (narrow : n.toNat < 64) :
    ((1 : UInt64) <<< n.toUInt64).toNat = 2 ^ n.toNat := by
  have below : 2 ^ n.toNat < 2 ^ 64 := Nat.pow_lt_pow_right (by decide) narrow
  rw [UInt64.toNat_shiftLeft, UInt32.toNat_toUInt64, Nat.mod_eq_of_lt narrow, UInt64.toNat_one,
    Nat.one_shiftLeft, Nat.mod_eq_of_lt below]

/-- The mask of the low `n` bits is the number `2 ^ n - 1` for every width up to 64. -/
theorem lowMask_toNat (n : UInt32) (within : n.toNat ≤ 64) : (lowMask n).toNat = 2 ^ n.toNat - 1 := by
  unfold lowMask
  by_cases full : n ≥ 64
  · have wide : n.toNat = 64 := by
      have : (64 : UInt32).toNat ≤ n.toNat := UInt32.le_iff_toNat_le.mp full
      simp at this
      omega
    simp only [full, if_true, wide]
    rfl
  · have narrow : n.toNat < 64 := by
      have : ¬ (64 : UInt32).toNat ≤ n.toNat := fun h => full (UInt32.le_iff_toNat_le.mpr h)
      simp at this
      omega
    have shifted := one_shiftLeft_toNat n narrow
    have positive : (1 : UInt64) ≤ (1 : UInt64) <<< n.toUInt64 := by
      rw [UInt64.le_iff_toNat_le, shifted]
      exact Nat.one_le_two_pow
    simp only [full, if_false]
    rw [UInt64.toNat_sub_of_le _ _ positive, shifted]
    rfl

theorem and_lowMask_toNat (x : UInt64) (n : UInt32) (within : n.toNat ≤ 64) :
    (x &&& lowMask n).toNat = x.toNat % 2 ^ n.toNat := by
  rw [UInt64.toNat_and, lowMask_toNat n within, Nat.and_two_pow_sub_one_eq_mod]

/-- The top bit of a number of `width` bits is set exactly when the number is at least
`2 ^ (width - 1)`. -/
theorem signBit_ne_zero_iff (r : Nat) (width : UInt32) (positive : 0 < width.toNat)
    (narrow : width.toNat < 64) (fits : r < 2 ^ width.toNat) :
    UInt64.ofNat r &&& ((1 : UInt64) <<< (width - 1).toUInt64) ≠ 0 ↔ 2 ^ (width.toNat - 1) ≤ r := by
  have top : (width - 1).toNat = width.toNat - 1 := by
    rw [UInt32.toNat_sub_of_le _ _ (UInt32.le_iff_toNat_le.mpr (by simp; omega))]
    rfl
  have wordFits : r < 2 ^ 64 := Nat.lt_of_lt_of_le fits (Nat.pow_le_pow_right (by decide) narrow.le)
  have split : width.toNat - 1 + 1 = width.toNat := by omega
  rw [ne_eq, ← UInt64.toNat_inj, UInt64.toNat_and, one_shiftLeft_toNat _ (by omega), top,
    UInt64.toNat_ofNat_of_lt' wordFits, Nat.and_two_pow, UInt64.toNat_zero]
  constructor
  · intro set
    apply Nat.ge_two_pow_of_testBit
    cases bit : r.testBit (width.toNat - 1)
    · simp [bit] at set
    · rfl
  · intro high
    have bit := Nat.testBit_of_two_pow_le_and_two_pow_add_one_gt high (by rw [split]; exact fits)
    simp [bit]

theorem toNat_or_not_lowMask (r : Nat) (width : UInt32) (narrow : width.toNat < 64)
    (fits : r < 2 ^ width.toNat) :
    (UInt64.ofNat r ||| ~~~(lowMask width)).toNat = 2 ^ 64 - 2 ^ width.toNat + r := by
  have wordFits : r < 2 ^ 64 := Nat.lt_of_lt_of_le fits (Nat.pow_le_pow_right (by decide) narrow.le)
  have whole : 2 ^ width.toNat * 2 ^ (64 - width.toNat) = 2 ^ 64 := by
    rw [← Nat.pow_add]
    congr 1
    omega
  have high : UInt64.size - 1 - (2 ^ width.toNat - 1) = 2 ^ width.toNat * (2 ^ (64 - width.toNat) - 1) := by
    have positive : 0 < 2 ^ width.toNat := Nat.two_pow_pos _
    rw [Nat.mul_sub_one, whole]
    simp only [UInt64.size]
    omega
  rw [UInt64.toNat_or, UInt64.toNat_not, lowMask_toNat _ narrow.le, UInt64.toNat_ofNat_of_lt' wordFits,
    high, Nat.or_comm, ← Nat.two_pow_add_eq_or_of_lt fits, Nat.mul_sub_one, whole]

namespace BitPacker

/-- The bits the accumulator holds, oldest first. -/
def bits (p : BitPacker) : List Bool :=
  Bits.ofNat p.count.toNat p.acc.toNat

/-- The accumulator holds nothing above its counted bits. -/
def Clean (p : BitPacker) : Prop :=
  p.acc.toNat < 2 ^ p.count.toNat

theorem clean_empty : ({} : BitPacker).Clean := by
  unfold Clean
  decide

@[simp] theorem bits_empty : ({} : BitPacker).bits = [] := rfl

section

variable (p : BitPacker)

theorem push_acc_toNat (chunk : UInt64) (n : UInt32) (clean : p.Clean)
    (fits : p.count.toNat + n.toNat ≤ 64) (positive : 0 < n.toNat) :
    (p.push chunk n).acc.toNat = p.acc.toNat + 2 ^ p.count.toNat * (chunk.toNat % 2 ^ n.toNat) := by
  have below : chunk.toNat % 2 ^ n.toNat * 2 ^ p.count.toNat < 2 ^ 64 := by
    calc chunk.toNat % 2 ^ n.toNat * 2 ^ p.count.toNat
        < 2 ^ n.toNat * 2 ^ p.count.toNat :=
          Nat.mul_lt_mul_of_pos_right (Nat.mod_lt _ (Nat.two_pow_pos _)) (Nat.two_pow_pos _)
      _ = 2 ^ (n.toNat + p.count.toNat) := (Nat.pow_add 2 _ _).symm
      _ ≤ 2 ^ 64 := Nat.pow_le_pow_right (by decide) (by omega)
  have shift : p.count.toUInt64.toNat % 64 = p.count.toNat := by
    rw [UInt32.toNat_toUInt64]
    omega
  simp only [push, UInt64.toNat_or, UInt64.toNat_shiftLeft, shift,
    and_lowMask_toNat chunk n (by omega), Nat.shiftLeft_eq, Nat.mod_eq_of_lt below]
  rw [Nat.or_comm, Nat.mul_comm, ← Nat.two_pow_add_eq_or_of_lt clean, Nat.add_comm]

theorem push_count_toNat (chunk : UInt64) (n : UInt32) (fits : p.count.toNat + n.toNat ≤ 64) :
    (p.push chunk n).count.toNat = p.count.toNat + n.toNat := by
  simp only [push, UInt32.toNat_add]
  omega

theorem push_clean (chunk : UInt64) (n : UInt32) (clean : p.Clean)
    (fits : p.count.toNat + n.toNat ≤ 64) (positive : 0 < n.toNat) : (p.push chunk n).Clean := by
  have top : chunk.toNat % 2 ^ n.toNat < 2 ^ n.toNat := Nat.mod_lt _ (Nat.two_pow_pos _)
  unfold Clean at clean ⊢
  rw [push_acc_toNat p chunk n clean fits positive, push_count_toNat p chunk n fits, Nat.pow_add]
  have step : 2 ^ p.count.toNat * (chunk.toNat % 2 ^ n.toNat) + 2 ^ p.count.toNat ≤
      2 ^ p.count.toNat * 2 ^ n.toNat := by
    rw [← Nat.mul_succ]
    exact Nat.mul_le_mul_left _ top
  omega

theorem push_bits (chunk : UInt64) (n : UInt32) (clean : p.Clean)
    (fits : p.count.toNat + n.toNat ≤ 64) (positive : 0 < n.toNat) :
    (p.push chunk n).bits = p.bits ++ Bits.ofNat n.toNat chunk.toNat := by
  have top : chunk.toNat % 2 ^ n.toNat < 2 ^ n.toNat := Nat.mod_lt _ (Nat.two_pow_pos _)
  have low : (p.acc.toNat + 2 ^ p.count.toNat * (chunk.toNat % 2 ^ n.toNat)) % 2 ^ p.count.toNat =
      p.acc.toNat := by
    rw [Nat.add_mul_mod_self_left, Nat.mod_eq_of_lt clean]
  have high : (p.acc.toNat + 2 ^ p.count.toNat * (chunk.toNat % 2 ^ n.toNat)) / 2 ^ p.count.toNat =
      chunk.toNat % 2 ^ n.toNat := by
    rw [Nat.add_mul_div_left _ _ (Nat.two_pow_pos _), Nat.div_eq_of_lt clean, Nat.zero_add]
  unfold bits
  rw [push_acc_toNat p chunk n clean fits positive, push_count_toNat p chunk n fits, Bits.ofNat_add,
    ← Bits.ofNat_mod_two_pow p.count.toNat p.count.toNat _ (Nat.le_refl _), low, high,
    Bits.ofNat_mod_two_pow _ _ _ (Nat.le_refl _)]

theorem absorb_eq_push (b : UInt8) : p.absorb b = p.push b.toUInt64 8 := by
  have masked : b.toUInt64 &&& lowMask 8 = b.toUInt64 := by
    apply UInt64.toNat_inj.mp
    rw [and_lowMask_toNat _ 8 (by decide), UInt8.toNat_toUInt64]
    exact Nat.mod_eq_of_lt b.toNat_lt
  simp only [absorb, push, masked]

theorem shiftByte_count_toNat (full : 8 ≤ p.count.toNat) :
    p.shiftByte.count.toNat = p.count.toNat - 8 :=
  UInt32.toNat_sub_of_le p.count 8 (UInt32.le_iff_toNat_le.mpr full)

theorem shiftByte_bits (full : 8 ≤ p.count.toNat) :
    p.bits = Bits.ofNat 8 p.acc.toUInt8.toNat ++ p.shiftByte.bits := by
  have count := shiftByte_count_toNat p full
  have shifted : (p.acc >>> 8).toNat = p.acc.toNat / 2 ^ 8 := by
    rw [UInt64.toNat_shiftRight, Nat.shiftRight_eq_div_pow]
    rfl
  unfold bits
  rw [count]
  simp only [shiftByte, shifted, UInt64.toNat_toUInt8]
  rw [Bits.ofNat_mod_two_pow 8 8 _ (Nat.le_refl 8), ← Bits.ofNat_add]
  congr 1
  omega

theorem shiftByte_clean (clean : p.Clean) (full : 8 ≤ p.count.toNat) : p.shiftByte.Clean := by
  have count := shiftByte_count_toNat p full
  unfold Clean at *
  rw [count]
  simp only [shiftByte, UInt64.toNat_shiftRight, Nat.shiftRight_eq_div_pow]
  apply Nat.div_lt_of_lt_mul
  rw [← Nat.pow_add]
  have : (8 : UInt64).toNat % 64 + (p.count.toNat - 8) = p.count.toNat := by
    change 8 % 64 + (p.count.toNat - 8) = p.count.toNat
    omega
  rwa [this]

/-- Taking `n` of the held bits returns their value and keeps the rest. -/
theorem take_bits (n : UInt32) (held : n.toNat ≤ p.count.toNat) (narrow : n.toNat < 64) :
    (p.take n).1.toNat = p.acc.toNat % 2 ^ n.toNat ∧
      p.bits = Bits.ofNat n.toNat (p.take n).1.toNat ++ (p.take n).2.bits := by
  have value : (p.take n).1.toNat = p.acc.toNat % 2 ^ n.toNat :=
    and_lowMask_toNat p.acc n (by omega)
  have count : (p.count - n).toNat = p.count.toNat - n.toNat := by
    rw [UInt32.toNat_sub_of_le _ _ (UInt32.le_iff_toNat_le.mpr held)]
  have shifted : (p.acc >>> n.toUInt64).toNat = p.acc.toNat / 2 ^ n.toNat := by
    rw [UInt64.toNat_shiftRight, Nat.shiftRight_eq_div_pow, UInt32.toNat_toUInt64,
      Nat.mod_eq_of_lt narrow]
  refine ⟨value, ?_⟩
  rw [value, Bits.ofNat_mod_two_pow _ _ _ (Nat.le_refl _)]
  unfold bits take
  simp only [count, shifted]
  rw [← Bits.ofNat_add]
  congr 1
  omega

theorem take_clean (n : UInt32) (clean : p.Clean) (held : n.toNat ≤ p.count.toNat)
    (narrow : n.toNat < 64) : (p.take n).2.Clean := by
  have count : (p.count - n).toNat = p.count.toNat - n.toNat := by
    rw [UInt32.toNat_sub_of_le _ _ (UInt32.le_iff_toNat_le.mpr held)]
  unfold Clean take at *
  simp only [count, UInt64.toNat_shiftRight, Nat.shiftRight_eq_div_pow, UInt32.toNat_toUInt64,
    Nat.mod_eq_of_lt narrow]
  apply Nat.div_lt_of_lt_mul
  rwa [← Nat.pow_add, Nat.add_sub_cancel' held]

end

end BitPacker

end Netcode
