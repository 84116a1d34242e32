import Mathlib
import Netcode.Proofs.Wire.Layout
import Netcode.Proofs.Text.Utf8

set_option autoImplicit false

namespace Netcode

namespace Wire

section Words

variable (mode : CodecMode)

theorem extendSign_unsigned (bits : Int32) (nonneg : ¬ bits < 0) (n : Nat)
    (fits : n < 2 ^ (widthOf bits).toNat) :
    (extendSign bits (UInt64.ofNat (n % 2 ^ (widthOf bits).toNat))).toUInt64 = UInt64.ofNat n := by
  rw [extendSign_of_not_neg nonneg, UInt64.toUInt64_toInt64, Nat.mod_eq_of_lt fits]

theorem emitsIn_writeByte (b : UInt8) : EmitsIn mode (writeByte b) () (Bits.ofNat 8 b.toNat) :=
  emitsIn_writeBits mode _ 8 mode.carries_byteWidths.1

theorem parsesIn_readByte (b : UInt8) : ParsesIn mode readByte (Bits.ofNat 8 b.toNat) b := by
  refine ((parsesIn_readBits mode 8 mode.carries_byteWidths.1 b.toNat).map _).of_eq rfl ?_
  rw [extendSign_unsigned 8 (by decide) _ b.toNat_lt]
  apply UInt8.toNat_inj.mp
  rw [UInt64.toNat_toUInt8, UInt64.toNat_ofNat', Nat.mod_mod_of_dvd _ (by decide),
    Nat.mod_eq_of_lt b.toNat_lt]

theorem emitsIn_writeShort (v : Int16) :
    EmitsIn mode (writeShort v) () (Bits.ofNat 16 v.toUInt16.toNat) :=
  (emitsIn_writeBits mode _ 16 mode.carries_byteWidths.2.1).of_eq
    (by rw [UInt64.toUInt64_toInt64, UInt16.toNat_toUInt64]; rfl)

theorem parsesIn_readShort (v : Int16) : ParsesIn mode readShort (Bits.ofNat 16 v.toUInt16.toNat) v := by
  refine ((parsesIn_readBits mode 16 mode.carries_byteWidths.2.1 _).map _).of_eq rfl ?_
  have word : (UInt64.ofNat v.toUInt16.toNat).toUInt16 = v.toUInt16 := by
    apply UInt16.toNat_inj.mp
    rw [UInt64.toNat_toUInt16, UInt64.toNat_ofNat', Nat.mod_mod_of_dvd _ (by decide),
      Nat.mod_eq_of_lt v.toUInt16.toNat_lt]
  rw [extendSign_unsigned 16 (by decide) _ v.toUInt16.toNat_lt, word, Int16.toInt16_toUInt16]

theorem emitsIn_writeLong (v : Int32) :
    EmitsIn mode (writeLong v) () (Bits.ofNat 32 v.toUInt32.toNat) :=
  (emitsIn_writeBits mode _ 32 mode.carries_byteWidths.2.2).of_eq
    (by rw [UInt64.toUInt64_toInt64, UInt32.toNat_toUInt64]; rfl)

theorem parsesIn_readLong (v : Int32) : ParsesIn mode readLong (Bits.ofNat 32 v.toUInt32.toNat) v := by
  refine ((parsesIn_readBits mode 32 mode.carries_byteWidths.2.2 _).map _).of_eq rfl ?_
  have word : (UInt64.ofNat v.toUInt32.toNat).toUInt32 = v.toUInt32 := by
    apply UInt32.toNat_inj.mp
    rw [UInt64.toNat_toUInt32, UInt64.toNat_ofNat', Nat.mod_mod_of_dvd _ (by decide),
      Nat.mod_eq_of_lt v.toUInt32.toNat_lt]
  rw [extendSign_unsigned 32 (by decide) _ v.toUInt32.toNat_lt, word, Int32.toInt32_toUInt32]

theorem emitsIn_writeFloat (x : Single) :
    EmitsIn mode (writeFloat x) () (Bits.ofNat 32 x.bits.toNat) :=
  (emitsIn_writeBits mode _ 32 mode.carries_byteWidths.2.2).of_eq
    (by rw [UInt64.toUInt64_toInt64, UInt32.toNat_toUInt64]; rfl)

theorem parsesIn_readFloat (x : Single) : ParsesIn mode readFloat (Bits.ofNat 32 x.bits.toNat) x := by
  refine ((parsesIn_readBits mode 32 mode.carries_byteWidths.2.2 _).map _).of_eq rfl ?_
  rw [extendSign_unsigned 32 (by decide) _ x.bits.toNat_lt]
  congr 1
  apply UInt32.toNat_inj.mp
  rw [UInt64.toNat_toUInt32, UInt64.toNat_ofNat', Nat.mod_mod_of_dvd _ (by decide),
    Nat.mod_eq_of_lt x.bits.toNat_lt]

end Words

section Strings

variable (mode : CodecMode)

theorem emitsIn_writeData (bytes : List UInt8) : EmitsIn mode (writeData bytes) () (Bits.ofBytes bytes) := by
  induction bytes with
  | nil => exact emitsIn_pure ()
  | cons b rest ih => exact (emitsIn_writeByte mode b).bind ih

theorem parsesIn_readData (bytes : List UInt8) :
    ParsesIn mode (readData bytes.length) (Bits.ofBytes bytes) bytes := by
  induction bytes with
  | nil => exact parsesIn_pure []
  | cons b rest ih => exact (parsesIn_readByte mode b).bind (ih.map (b :: ·))

theorem writeRawString_of_lt (s : List UInt8) (max : Nat) (fits : s.length < max) :
    writeRawString s max = (do writeData s; writeByte 0) := by
  simp only [writeRawString, ge_iff_le, Nat.not_le.mpr fits, if_false]

theorem emitsIn_writeRawString (s : List UInt8) (max : Nat) (fits : s.length < max) :
    EmitsIn mode (writeRawString s max) () (Bits.ofBytes (s ++ [0])) := by
  rw [writeRawString_of_lt s max fits]
  refine ((emitsIn_writeData mode s).bind (emitsIn_writeByte mode 0)).of_eq ?_
  simp

theorem parsesIn_readUntilZero (max : Nat) (s : List UInt8) (clear : 0 ∉ s) :
    ∀ (acc : List UInt8) (room : Nat), s.length ≤ room →
      ParsesIn mode (readUntilZero max acc room) (Bits.ofBytes (s ++ [0])) (acc.reverse ++ s) := by
  induction s with
  | nil =>
    intro acc room _
    -- whatever the loop would do after a byte that is not zero, it stops at this one
    have stop : ∀ later : UInt8 → Wire (List UInt8),
        ParsesIn mode (readByte >>= fun c => if c = 0 then pure acc.reverse else later c)
          (Bits.ofBytes ([] ++ [0])) (acc.reverse ++ []) := by
      intro later
      have done : ParsesIn mode (if (0 : UInt8) = 0 then pure acc.reverse else later 0) [] acc.reverse := by
        rw [if_pos rfl]
        exact parsesIn_pure _
      exact ((parsesIn_readByte mode 0).bind done).of_eq
        (by simp only [List.nil_append, Bits.ofBytes_cons, Bits.ofBytes_nil]) (List.append_nil _).symm
    cases room <;> exact stop _
  | cons b rest ih =>
    intro acc room fits
    have nonzero : b ≠ 0 := fun zero => clear (zero ▸ List.mem_cons_self)
    obtain ⟨room, rfl⟩ : ∃ r, room = r + 1 := ⟨room - 1, by simp at fits; omega⟩
    have next : ParsesIn mode (if b = 0 then pure acc.reverse else readUntilZero max (b :: acc) room)
        (Bits.ofBytes (rest ++ [0])) ((b :: acc).reverse ++ rest) := by
      rw [if_neg nonzero]
      exact ih (fun mem => clear (List.mem_cons_of_mem b mem)) (b :: acc) room (by simp at fits; omega)
    exact ((parsesIn_readByte mode b).bind next).of_eq
      (by simp only [List.cons_append, Bits.ofBytes_cons]) (by simp)

theorem parsesIn_readRawString (s : List UInt8) (max : Nat) (clear : 0 ∉ s) (fits : s.length ≤ max) :
    ParsesIn mode (readRawString max) (Bits.ofBytes (s ++ [0])) s :=
  parsesIn_readUntilZero mode max s clear [] max fits

theorem emitsIn_writeString (s : String) (fits : s.utf8ByteSize < maxStringChars) :
    EmitsIn mode (writeString s) () (Bits.ofBytes (s.toUTF8.toList ++ [0])) :=
  emitsIn_writeRawString mode _ _ (by rw [Utf8.length_toUTF8_toList]; exact fits)

theorem parsesIn_readString (s : String) (clear : Char.ofNat 0 ∉ s.toList)
    (fits : s.utf8ByteSize < maxStringChars) :
    ParsesIn mode readString (Bits.ofBytes (s.toUTF8.toList ++ [0])) s := by
  refine ((parsesIn_readRawString mode _ maxStringChars ?_ ?_).map Utf8.decodeLossy).of_eq rfl
    (Utf8.decodeLossy_toUTF8 s)
  · rwa [Utf8.zero_mem_toUTF8_iff]
  · rw [Utf8.length_toUTF8_toList]
    exact Nat.le_of_lt fits

end Strings

section Packed

theorem emitsIn_writeBool (b : Bool) : EmitsIn .bitPacked (writeBool b) () [b] :=
  (emits_writeBool b).inBitPacked

theorem parsesIn_readBool (b : Bool) : ParsesIn .bitPacked readBool [b] b :=
  (parses_readBool b).inBitPacked

theorem toInt32_nonneg_of_le (w : UInt32) (narrow : w.toNat ≤ 64) : ¬ w.toInt32 < 0 := by
  rw [Int32.lt_iff_toInt_lt, ← Int32.toInt_toBitVec, UInt32.toBitVec_toInt32,
    BitVec.toInt_eq_toNat_cond]
  simp only [UInt32.toNat_toBitVec]
  split
  · simp
  · simp
    omega

theorem widthOf_toInt32_of_le (w : UInt32) (narrow : w.toNat ≤ 64) : widthOf w.toInt32 = w := by
  simp only [widthOf, if_neg (toInt32_nonneg_of_le w narrow), UInt32.toUInt32_toInt32]

/-- The layout of a keyed change: a zero bit when the value stays, else a one bit and the new
value XORed with the key in `|bits|` bits. -/
def keyedChange (key old new : UInt32) (bits : Int32) : List Bool :=
  if old = new then [false] else true :: Bits.ofNat (widthOf bits).toNat (new ^^^ key).toNat

theorem emitsIn_writeDeltaKey (key old new : UInt32) (bits : Int32)
    (carries : CodecMode.bitPacked.Carries (widthOf bits)) :
    EmitsIn .bitPacked (writeDeltaKey key old new bits) () (keyedChange key old new bits) := by
  unfold writeDeltaKey keyedChange
  by_cases same : old = new
  · simp only [if_pos same]
    exact emitsIn_writeBool false
  · simp only [if_neg same]
    refine ((emitsIn_writeBool true).bind (emitsIn_writeBits .bitPacked _ bits carries)).of_eq ?_
    rw [UInt64.toUInt64_toInt64, UInt32.toNat_toUInt64]
    rfl

/-- Unmasking a keyed change gives the new value's low bits, all 32 of them from a width of 32
on. -/
theorem unmask_keyed (key new : UInt32) (w : UInt32) (narrow : w.toNat ≤ 64) :
    ((UInt64.ofNat ((new ^^^ key).toNat % 2 ^ w.toNat)).toUInt32 ^^^
        (key &&& if w ≥ 32 then ~~~0 else ((1 : UInt32) <<< w) - 1)) &&&
      (if w ≥ 32 then ~~~0 else ((1 : UInt32) <<< w) - 1) = UInt32.ofNat (new.toNat % 2 ^ w.toNat) := by
  -- the mask keeps the low `min w 32` bits, and so does the cut to a word
  have mask : (if w ≥ 32 then ~~~(0 : UInt32) else ((1 : UInt32) <<< w) - 1).toNat =
      2 ^ min w.toNat 32 - 1 := by
    split
    · rename_i wide
      have wide' : 32 ≤ w.toNat := UInt32.le_iff_toNat_le.mp wide
      rw [UInt32.toNat_not, Nat.min_eq_right wide']
      rfl
    · rename_i short
      have below : w.toNat < 32 := by simpa using UInt32.lt_iff_toNat_lt.mp (Nat.lt_of_not_le short)
      have one : ((1 : UInt32) <<< w).toNat = 2 ^ w.toNat := by
        have unit : (1 : UInt32).toNat = 1 := rfl
        rw [UInt32.toNat_shiftLeft, Nat.mod_eq_of_lt below, unit, Nat.one_shiftLeft,
          Nat.mod_eq_of_lt (Nat.pow_lt_pow_right (by decide) below)]
      rw [UInt32.toNat_sub_of_le _ _ (UInt32.le_iff_toNat_le.mpr (by rw [one]; exact Nat.one_le_two_pow)),
        one, Nat.min_eq_left (Nat.le_of_lt below)]
      rfl
  have cut : ∀ n : Nat, n % 2 ^ w.toNat % 2 ^ 32 = n % 2 ^ min w.toNat 32 := by
    intro n
    rcases le_total w.toNat 32 with short | wide
    · rw [Nat.min_eq_left short, Nat.mod_eq_of_lt (Nat.lt_of_lt_of_le (Nat.mod_lt _ (Nat.two_pow_pos _))
        (Nat.pow_le_pow_right (by decide) short))]
    · rw [Nat.min_eq_right wide, Nat.mod_mod_of_dvd _ (Nat.pow_dvd_pow 2 wide)]
  have word : ((new ^^^ key).toNat % 2 ^ w.toNat) % 2 ^ 64 = (new ^^^ key).toNat % 2 ^ w.toNat :=
    Nat.mod_eq_of_lt (Nat.lt_of_lt_of_le (Nat.mod_lt _ (Nat.two_pow_pos _))
      (Nat.pow_le_pow_right (by decide) narrow))
  apply UInt32.toNat_inj.mp
  rw [UInt32.toNat_and, UInt32.toNat_xor, UInt32.toNat_and, mask, UInt64.toNat_toUInt32,
    UInt64.toNat_ofNat', word, cut, UInt32.toNat_ofNat', cut, Nat.and_two_pow_sub_one_eq_mod,
    Nat.and_two_pow_sub_one_eq_mod, Nat.xor_mod_two_pow, Nat.mod_mod, Nat.mod_mod, ← Nat.xor_mod_two_pow,
    UInt32.toNat_xor, Nat.xor_assoc, Nat.xor_self, Nat.xor_zero]

/-- A keyed change reads back as the old value when nothing changed, and otherwise as the new
value's low `|bits|` bits. -/
theorem parsesIn_readDeltaKey (key old new : UInt32) (bits : Int32)
    (carries : CodecMode.bitPacked.Carries (widthOf bits)) :
    ParsesIn .bitPacked (readDeltaKey key old bits) (keyedChange key old new bits)
      (if old = new then old else UInt32.ofNat (new.toNat % 2 ^ (widthOf bits).toNat)) := by
  unfold readDeltaKey keyedChange
  by_cases same : old = new
  · simp only [if_pos same]
    exact ((parsesIn_readBool false).bind (parsesIn_pure old)).of_eq rfl rfl
  · simp only [if_neg same]
    -- the reader takes the field with the width's magnitude as a non-negative width
    have narrow := carries.2.1
    have magnitude := widthOf_toInt32_of_le (widthOf bits) narrow
    have carries' : CodecMode.bitPacked.Carries (widthOf (widthOf bits).toInt32) := by
      rw [magnitude]
      exact carries
    have field := parsesIn_readBits .bitPacked (widthOf bits).toInt32 carries' (new ^^^ key).toNat
    rw [magnitude] at field
    refine ((parsesIn_readBool true).bind (field.map _)).of_eq rfl ?_
    rw [extendSign_of_not_neg (toInt32_nonneg_of_le _ narrow), UInt64.toUInt64_toInt64]
    exact unmask_keyed key new (widthOf bits) narrow

theorem single_eq_of_bits_eq {x y : Single} (same : x.bits = y.bits) : x = y := by
  cases x
  cases y
  cases same
  rfl

theorem bits_eq_of_eqValue {x y : Single} (same : y.eqValue x = true) (nonzero : x.bits <<< 1 ≠ 0) :
    y.bits = x.bits := by
  simp only [Single.eqValue, Bool.and_eq_true, Bool.not_eq_true', Bool.or_eq_true, decide_eq_true_eq]
    at same
  rcases same.2 with equal | ⟨-, zero⟩
  · exact equal
  · exact absurd zero nonzero

/-- Only the two zeros lose everything to a shift by one: a pattern other than `+0.0` whose
truncation is not the zero of `-0.0` keeps a bit. -/
theorem shiftLeft_one_ne_zero (x : Single) (nonzero : x.bits ≠ 0)
    (notNegZero : ¬(x.toInt32Sat = 0 ∧ x.signBit)) : x.bits <<< 1 ≠ 0 := by
  intro lost
  have doubled := congrArg UInt32.toNat lost
  have one : (1 : UInt32).toNat % 32 = 1 := rfl
  rw [UInt32.toNat_shiftLeft, one, Nat.shiftLeft_eq] at doubled
  have positive : x.bits.toNat ≠ 0 := fun zero => nonzero (UInt32.toNat_inj.mp zero)
  have half : x.bits = 0x80000000 := by
    apply UInt32.toNat_inj.mp
    have := x.bits.toNat_lt
    simp at doubled ⊢
    omega
  apply notNegZero
  obtain ⟨bits⟩ := x
  subst half
  decide

theorem fitInt_of_lt {bits : Int32} (nonneg : ¬ bits < 0) (y : Int32) (lo : 0 ≤ y)
    (hi : y.toInt < 2 ^ (widthOf bits).toNat) : fitInt bits y = y := by
  have lo' := Int32.le_iff_toInt_le.mp lo
  have zero : (0 : Int32).toInt = 0 := rfl
  rw [zero] at lo'
  have below := Int32.toInt_lt y
  apply Int32.toInt_inj.mp
  rw [fitInt, if_neg nonneg, Int32.toInt_ofInt, Int.emod_eq_of_lt lo' (by exact_mod_cast hi),
    Int.bmod_eq_of_le (by simp [Int32.size]; omega) (by simp [Int32.size]; omega)]

theorem fitInt_of_small (y : Int32) (lo : 0 ≤ y) (hi : y < 8192) : fitInt 13 y = y := by
  have hi' := Int32.lt_iff_toInt_lt.mp hi
  have bound : (8192 : Int32).toInt = 8192 := rfl
  rw [bound] at hi'
  exact fitInt_of_lt (by decide) y lo (by rw [show (widthOf 13).toNat = 13 by decide]; omega)

/-- The layout of a compressed float: `0` for `+0.0`, `10` and the value plus 4096 in 13 bits for an
integral value in `[-4096, 4095]` but `-0.0`, else `11` and the pattern. -/
def compressedFloat (x : Single) : List Bool :=
  if x.bits = 0 then [false]
  else if (Single.ofInt32 x.toInt32Sat).eqValue x ∧ 0 ≤ x.toInt32Sat + floatIntBias ∧
      x.toInt32Sat + floatIntBias < 8192 ∧ ¬(x.toInt32Sat = 0 ∧ x.signBit) then
    true :: false :: Bits.ofNat 13 (x.toInt32Sat + floatIntBias).toInt64.toUInt64.toNat
  else true :: true :: Bits.ofNat 32 x.bits.toNat

theorem emitsIn_writeFloatCompressed (x : Single) :
    EmitsIn .bitPacked (writeFloatCompressed x) () (compressedFloat x) := by
  have width : (widthOf 13).toNat = 13 := by decide
  unfold writeFloatCompressed compressedFloat
  dsimp only
  split_ifs
  · exact emitsIn_writeBool false
  · have biased := emitsIn_writeBits .bitPacked (x.toInt32Sat + floatIntBias).toInt64 13 (by decide)
    rw [width] at biased
    exact ((emitsIn_writeBool true).seq ((emitsIn_writeBool false).seq biased)).of_eq rfl
  · exact ((emitsIn_writeBool true).seq ((emitsIn_writeBool true).seq
      (emitsIn_writeFloat .bitPacked x))).of_eq rfl

/-- A compressed float reads back as the exact pattern written. -/
theorem parsesIn_readFloatCompressed (x : Single) :
    ParsesIn .bitPacked readFloatCompressed (compressedFloat x) x := by
  unfold compressedFloat
  split_ifs with zero small
  · -- `+0.0` is the one pattern of all zeros
    exact ((parsesIn_readBool false).bind (parsesIn_pure Single.zero)).of_eq rfl
      (single_eq_of_bits_eq zero.symm)
  · -- an integral value: the 13 bits give back its truncation, whose pattern is the value's
    obtain ⟨same, lo, hi, notNegZero⟩ := small
    have width : (widthOf 13).toNat = 13 := by decide
    have biased := parsesIn_readBits .bitPacked 13 (by decide)
      (x.toInt32Sat + floatIntBias).toInt64.toUInt64.toNat
    rw [width] at biased
    refine ((parsesIn_readBool true).bind ((parsesIn_readBool false).bind (biased.map _))).of_eq rfl ?_
    rw [← width, toInt32_extendSign_low 13 (by decide) (by decide), fitInt_of_small _ lo hi,
      Int32.add_sub_cancel]
    exact single_eq_of_bits_eq (bits_eq_of_eqValue same (shiftLeft_one_ne_zero _ zero notNegZero))
  · exact ((parsesIn_readBool true).bind
      ((parsesIn_readBool true).bind (parsesIn_readFloat .bitPacked x))).of_eq rfl rfl

end Packed

end Wire

end Netcode
