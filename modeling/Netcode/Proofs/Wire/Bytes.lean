import Mathlib
import Netcode.Proofs.Wire.Bits

set_option autoImplicit false

namespace Netcode
namespace Wire

@[simp] theorem ofLittleEndian_nil : ofLittleEndian [] = 0 := rfl

@[simp] theorem ofLittleEndian_cons (b : UInt8) (bytes : List UInt8) :
    ofLittleEndian (b :: bytes) = (ofLittleEndian bytes <<< 8) ||| b.toUInt64 := rfl

@[simp] theorem length_littleEndian (v : UInt64) (k : Nat) : (littleEndian v k).length = k := by
  simp [littleEndian]

theorem toNat_ofLittleEndian (bytes : List UInt8) (short : bytes.length ≤ 8) :
    (ofLittleEndian bytes).toNat = Bits.toNat (Bits.ofBytes bytes) := by
  induction bytes with
  | nil => rfl
  | cons b bytes ih =>
    rw [List.length_cons] at short
    have rest := ih (by omega)
    -- the bytes after the first hold at most 56 bits, so shifting them by a byte loses nothing
    have room : (ofLittleEndian bytes).toNat < 2 ^ 56 := by
      have := Bits.toNat_lt (Bits.ofBytes bytes)
      rw [Bits.length_ofBytes] at this
      have : 2 ^ (8 * bytes.length) ≤ 2 ^ 56 := Nat.pow_le_pow_right (by norm_num) (by omega)
      omega
    have shifted : (ofLittleEndian bytes <<< 8).toNat = (ofLittleEndian bytes).toNat <<< 8 := by
      rw [UInt64.toNat_shiftLeft, Nat.mod_eq_of_lt] <;> simp [Nat.shiftLeft_eq]; omega
    have low : b.toNat < 2 ^ 8 := b.toNat_lt
    rw [ofLittleEndian_cons, UInt64.toNat_or, shifted, UInt8.toNat_toUInt64, ← Nat.shiftLeft_add_eq_or_of_lt low,
      Bits.ofBytes_cons, Bits.toNat_append, Bits.toNat_ofNat, Bits.length_ofNat, Nat.mod_eq_of_lt low, rest,
      Nat.shiftLeft_eq]
    ring

theorem littleEndian_succ (v : UInt64) (k : Nat) (short : k < 8) :
    littleEndian v (k + 1) = v.toUInt8 :: littleEndian (v >>> 8) k := by
  unfold littleEndian
  rw [List.range_succ_eq_map, List.map_cons, List.map_map]
  congr 1
  apply List.map_congr_left
  intro i mem
  rw [List.mem_range] at mem
  apply UInt8.toNat_inj.mp
  have wide : 8 * (i + 1) < 64 := by omega
  simp only [Function.comp_apply, UInt64.toNat_toUInt8, UInt64.toNat_shiftRight, UInt64.toNat_ofNat',
    UInt64.toNat_ofNat, ← Nat.shiftRight_add]
  congr 2
  omega

theorem ofBytes_littleEndian (v : UInt64) (k : Nat) (short : k ≤ 8) :
    Bits.ofBytes (littleEndian v k) = Bits.ofNat (8 * k) v.toNat := by
  induction k generalizing v with
  | zero => rfl
  | succ k ih =>
    rw [littleEndian_succ v k (by omega), Bits.ofBytes_cons, ih (v >>> 8) (by omega),
      show 8 * (k + 1) = 8 + 8 * k by ring, Bits.ofNat_add, UInt64.toNat_toUInt8,
      Bits.ofNat_mod_two_pow 8 8 _ le_rfl, UInt64.toNat_shiftRight, Nat.shiftRight_eq_div_pow]
    rfl

/-- Reading back the low `k` bytes of a word gives the word modulo `2 ^ (8 * k)`. -/
theorem toNat_ofLittleEndian_littleEndian (v : UInt64) (k : Nat) (short : k ≤ 8) :
    (ofLittleEndian (littleEndian v k)).toNat = v.toNat % 2 ^ (8 * k) := by
  rw [toNat_ofLittleEndian _ (by simpa using short), ofBytes_littleEndian v k short, Bits.toNat_ofNat]

theorem ofLittleEndian_littleEndian (v : UInt64) : ofLittleEndian (littleEndian v 8) = v := by
  apply UInt64.toNat_inj.mp
  rw [toNat_ofLittleEndian_littleEndian v 8 le_rfl]
  exact Nat.mod_eq_of_lt v.toNat_lt

end Wire
end Netcode
