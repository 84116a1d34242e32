import Mathlib
import Netcode.Proofs.Wire.Packing

set_option autoImplicit false

namespace Netcode.Utf8

section Unfold

theorem decodeChars_one {b : UInt8} (rest : List UInt8) (lead : sequenceLength b = 1) :
    decodeChars (b :: rest) = Char.ofNat b.toNat :: decodeChars rest := by
  rw [decodeChars.eq_def]
  simp [lead]

theorem decodeChars_two {b c : UInt8} (rest : List UInt8) (lead : sequenceLength b = 2)
    (tail : isTail c) :
    decodeChars (b :: c :: rest) = Char.ofNat ((b &&& 0x1F).toNat * 64 + payload c) :: decodeChars rest := by
  rw [decodeChars.eq_def]
  simp [lead, tail]

theorem decodeChars_three {b c d : UInt8} (rest : List UInt8) (lead : sequenceLength b = 3)
    (second : secondFits b c) (tail : isTail d) :
    decodeChars (b :: c :: d :: rest) =
      Char.ofNat ((b &&& 0x0F).toNat * 4096 + payload c * 64 + payload d) :: decodeChars rest := by
  rw [decodeChars.eq_def]
  simp [lead, second, tail]

theorem decodeChars_four {b c d e : UInt8} (rest : List UInt8) (lead : sequenceLength b = 4)
    (second : secondFits b c) (third : isTail d) (tail : isTail e) :
    decodeChars (b :: c :: d :: e :: rest) =
      Char.ofNat ((b &&& 0x07).toNat * 262144 + payload c * 4096 + payload d * 64 + payload e) ::
        decodeChars rest := by
  rw [decodeChars.eq_def]
  simp [lead, second, third, tail]

end Unfold

section Classes

theorem sequenceLength_eq (b : UInt8) : sequenceLength b =
    if b.toNat < 0x80 then 1 else if b.toNat < 0xC2 then 0 else if b.toNat < 0xE0 then 2
    else if b.toNat < 0xF0 then 3 else if b.toNat < 0xF5 then 4 else 0 := by
  simp only [sequenceLength, UInt8.lt_iff_toNat_lt]
  rfl

theorem sequenceLength_eq_one {b : UInt8} (ascii : b.toNat < 0x80) : sequenceLength b = 1 := by
  rw [sequenceLength_eq, if_pos ascii]

theorem sequenceLength_eq_two {b : UInt8} (low : 0xC2 ≤ b.toNat) (high : b.toNat < 0xE0) :
    sequenceLength b = 2 := by
  rw [sequenceLength_eq]
  split_ifs <;> omega

theorem sequenceLength_eq_three {b : UInt8} (low : 0xE0 ≤ b.toNat) (high : b.toNat < 0xF0) :
    sequenceLength b = 3 := by
  rw [sequenceLength_eq]
  split_ifs <;> omega

theorem sequenceLength_eq_four {b : UInt8} (low : 0xF0 ≤ b.toNat) (high : b.toNat < 0xF5) :
    sequenceLength b = 4 := by
  rw [sequenceLength_eq]
  split_ifs <;> omega

theorem isTail_iff (b : UInt8) : isTail b = true ↔ 0x80 ≤ b.toNat ∧ b.toNat ≤ 0xBF := by
  simp only [isTail, Bool.and_eq_true, decide_eq_true_eq, UInt8.le_iff_toNat_le]
  rfl

theorem secondFits_iff (lead b : UInt8) : secondFits lead b = true ↔
    (if lead.toNat = 0xE0 then 0xA0 ≤ b.toNat ∧ b.toNat ≤ 0xBF
    else if lead.toNat = 0xED then 0x80 ≤ b.toNat ∧ b.toNat ≤ 0x9F
    else if lead.toNat = 0xF0 then 0x90 ≤ b.toNat ∧ b.toNat ≤ 0xBF
    else if lead.toNat = 0xF4 then 0x80 ≤ b.toNat ∧ b.toNat ≤ 0x8F
    else 0x80 ≤ b.toNat ∧ b.toNat ≤ 0xBF) := by
  simp only [secondFits, secondRange, ← UInt8.toNat_inj, UInt8.reduceToNat]
  split_ifs <;> simp [UInt8.le_iff_toNat_le]

theorem toNat_and_eq_mod (b m : UInt8) (k : Nat) (mask : m.toNat = 2 ^ k - 1) :
    (b &&& m).toNat = b.toNat % 2 ^ k := by
  rw [UInt8.toNat_and, mask, Nat.and_two_pow_sub_one_eq_mod]

theorem payload_eq (b : UInt8) : payload b = b.toNat % 64 :=
  toNat_and_eq_mod b 0x3F 6 rfl

end Classes

/-- Decoding reads a character's own encoding back as that character, whatever follows it. -/
theorem decodeChars_utf8EncodeChar (c : Char) (rest : List UInt8) :
    decodeChars (String.utf8EncodeChar c ++ rest) = c :: decodeChars rest := by
  have valid : c.val.toNat < 0xD800 ∨ (0xDFFF < c.val.toNat ∧ c.val.toNat < 0x110000) := c.valid
  obtain ⟨v, value⟩ : ∃ v, c.val.toNat = v := ⟨_, rfl⟩
  have back : Char.ofNat v = c := value ▸ Char.ofNat_toNat c
  have byte : ∀ n, (UInt8.ofNat n).toNat = n % 256 := fun n => UInt8.toNat_ofNat
  have low3 : ∀ b : UInt8, (b &&& 0x07).toNat = b.toNat % 8 := fun b => toNat_and_eq_mod b _ 3 rfl
  have low4 : ∀ b : UInt8, (b &&& 0x0F).toNat = b.toNat % 16 := fun b => toNat_and_eq_mod b _ 4 rfl
  have low5 : ∀ b : UInt8, (b &&& 0x1F).toNat = b.toNat % 32 := fun b => toNat_and_eq_mod b _ 5 rfl
  simp only [String.utf8EncodeChar, value]
  rw [value] at valid
  rw [← back]
  -- one case per length of the encoding; the second byte of a three- or four-byte form lies in
  -- the narrowed range of its lead because the code point is no surrogate and at most U+10FFFF
  split_ifs with one two three
  · rw [List.singleton_append, decodeChars_one rest (sequenceLength_eq_one (by rw [byte]; omega)),
      byte, Nat.mod_eq_of_lt (by omega)]
  · rw [List.cons_append, List.singleton_append,
      decodeChars_two rest (sequenceLength_eq_two (by rw [byte]; omega) (by rw [byte]; omega))
        (by rw [isTail_iff, byte]; omega),
      low5, payload_eq, byte, byte]
    congr 2
    omega
  · rw [List.cons_append, List.cons_append, List.singleton_append,
      decodeChars_three rest (sequenceLength_eq_three (by rw [byte]; omega) (by rw [byte]; omega))
        (by rw [secondFits_iff, byte, byte]; split_ifs <;> omega)
        (by rw [isTail_iff, byte]; omega),
      low4, payload_eq, payload_eq, byte, byte, byte]
    congr 2
    omega
  · rw [List.cons_append, List.cons_append, List.cons_append, List.singleton_append,
      decodeChars_four rest (sequenceLength_eq_four (by rw [byte]; omega) (by rw [byte]; omega))
        (by rw [secondFits_iff, byte, byte]; split_ifs <;> omega)
        (by rw [isTail_iff, byte]; omega) (by rw [isTail_iff, byte]; omega),
      low3, payload_eq, payload_eq, payload_eq, byte, byte, byte, byte]
    congr 2
    omega

theorem decodeChars_flatMap (cs : List Char) :
    decodeChars (cs.flatMap String.utf8EncodeChar) = cs := by
  induction cs with
  | nil => exact decodeChars.eq_1
  | cons c cs ih => rw [List.flatMap_cons, decodeChars_utf8EncodeChar, ih]

theorem toUTF8_toList (s : String) : s.toUTF8.toList = s.toList.flatMap String.utf8EncodeChar := by
  rw [String.toUTF8_eq_toByteArray]
  conv => lhs; rw [← String.ofList_toList (s := s)]
  rw [String.toByteArray_ofList, List.utf8Encode, ByteArray.toList_eq_data_toList]
  simp

theorem length_toUTF8_toList (s : String) : s.toUTF8.toList.length = s.utf8ByteSize := by
  rw [ByteArray.toList_eq_data_toList]
  simp

/-- Every string survives a trip through its UTF-8 bytes. -/
theorem decodeLossy_toUTF8 (s : String) : decodeLossy s.toUTF8.toList = s := by
  rw [decodeLossy, toUTF8_toList, decodeChars_flatMap, String.ofList_toList]

theorem zero_mem_utf8EncodeChar_iff (c : Char) : 0 ∈ String.utf8EncodeChar c ↔ c = Char.ofNat 0 := by
  have null : c = Char.ofNat 0 ↔ c.val.toNat = 0 := by
    constructor
    · rintro rfl
      rfl
    · intro zero
      rw [← Char.ofNat_toNat c]
      exact congrArg Char.ofNat zero
  have byte : ∀ n, UInt8.ofNat n = 0 ↔ n % 256 = 0 := fun n => by
    rw [← UInt8.toNat_inj, UInt8.toNat_ofNat]
    rfl
  rw [null]
  simp only [String.utf8EncodeChar]
  -- the bytes of a sequence longer than one all have their top bit set
  split_ifs <;> simp only [List.mem_cons, List.not_mem_nil, or_false, eq_comm (a := (0 : UInt8)),
    byte] <;> omega

theorem zero_mem_toUTF8_iff (s : String) : 0 ∈ s.toUTF8.toList ↔ Char.ofNat 0 ∈ s.toList := by
  rw [toUTF8_toList, List.mem_flatMap]
  constructor
  · rintro ⟨c, mem, zero⟩
    exact (zero_mem_utf8EncodeChar_iff c).mp zero ▸ mem
  · intro mem
    exact ⟨_, mem, (zero_mem_utf8EncodeChar_iff _).mpr rfl⟩

end Netcode.Utf8
