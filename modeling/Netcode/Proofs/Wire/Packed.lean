import Mathlib
import Netcode.Proofs.Wire.Layout

set_option autoImplicit false

namespace Netcode

namespace Bits

/-- The consecutive fields of the given widths at the front of a bit string. -/
def fields : List Nat → List Bool → List (List Bool)
  | [], _ => []
  | w :: ws, bs => bs.take w :: fields ws (bs.drop w)

theorem getD_ofNat (w n i : Nat) : (ofNat w n).getD i false = (decide (i < w) && n.testBit i) := by
  induction w generalizing n i with
  | zero => simp
  | succ w ih =>
    cases i with
    | zero => simp [Nat.testBit_zero]
    | succ i =>
      rw [ofNat_succ, List.getD_cons_succ, ih, Nat.testBit_div_two]
      simp

/-- Bit `k` of a byte string is bit `k % 8` of its byte `k / 8`; past the end there are none. -/
theorem getD_ofBytes (bytes : List UInt8) (k : Nat) :
    (ofBytes bytes).getD k false = (bytes.getD (k / 8) 0).toNat.testBit (k % 8) := by
  induction bytes generalizing k with
  | nil => simp
  | cons b rest ih =>
    rw [ofBytes_cons]
    by_cases first : k < 8
    · rw [List.getD_append _ _ _ _ (by simpa using first), getD_ofNat, Nat.div_eq_of_lt first,
        Nat.mod_eq_of_lt first]
      simp [first]
    · -- past the first byte, the bit sits in the rest, eight places earlier
      have later : k / 8 = (k - 8) / 8 + 1 := by omega
      have within : k % 8 = (k - 8) % 8 := by omega
      rw [List.getD_append_right _ _ _ _ (by simp; omega), length_ofNat, ih, later, within,
        List.getD_cons_succ]

theorem getD_append_zeros (bits : List Bool) (pad k : Nat) :
    (bits ++ List.replicate pad false).getD k false = bits.getD k false := by
  by_cases inside : k < bits.length
  · exact List.getD_append _ _ _ _ inside
  · rw [List.getD_append_right _ _ _ _ (by omega), List.getD_eq_default bits false (by omega)]
    by_cases padded : k - bits.length < pad
    · exact List.getD_replicate _ padded
    · exact List.getD_eq_default _ _ (by rw [List.length_replicate]; omega)

end Bits

theorem ByteStream.putAll_append (s : ByteStream) (front back : List UInt8) :
    s.putAll (front ++ back) = (s.putAll front).putAll back := by
  induction front generalizing s with
  | nil => rfl
  | cons b rest ih => exact ih _

theorem ByteStream.pos_putAll (s : ByteStream) (src : List UInt8) :
    (s.putAll src).pos = s.pos + src.length := by
  induction src generalizing s with
  | nil => rfl
  | cons b rest ih =>
    rw [ByteStream.putAll, ih, List.length_cons]
    dsimp only
    omega

theorem ByteStream.capacity_putAll (s : ByteStream) (src : List UInt8) :
    (s.putAll src).capacity = s.capacity := by
  induction src generalizing s with
  | nil => rfl
  | cons b rest ih => exact ih _

theorem ByteStream.canWrite_putAll (s : ByteStream) (src : List UInt8) (k : Nat) :
    (s.putAll src).canWrite k = s.canWrite (src.length + k) := by
  unfold ByteStream.canWrite
  rw [capacity_putAll, pos_putAll, Nat.add_assoc]

theorem ByteStream.canWrite_of_le {s : ByteStream} {j k : Nat} (room : s.canWrite k = true) (fewer : j ≤ k) :
    s.canWrite j = true := by
  unfold ByteStream.canWrite at room ⊢
  split
  · rename_i cap capacity
    rw [capacity] at room
    simp only [decide_eq_true_eq] at room ⊢
    omega
  · rfl

theorem BitPacker.eq_empty {p : BitPacker} (clean : p.Clean) (none : p.count.toNat = 0) : p = {} := by
  obtain ⟨acc, count⟩ := p
  unfold BitPacker.Clean at clean
  simp only [none, Nat.pow_zero, Nat.lt_one_iff] at clean
  obtain rfl : count = 0 := UInt32.toNat_inj.mp none
  obtain rfl : acc = 0 := UInt64.toNat_inj.mp clean
  rfl

namespace Wire

theorem littleEndian_eq_of_mod {a b : UInt64} {k : Nat} (short : k ≤ 8)
    (same : a.toNat % 2 ^ (8 * k) = b.toNat % 2 ^ (8 * k)) : littleEndian a k = littleEndian b k := by
  apply Bits.ofBytes_injective
  rw [ofBytes_littleEndian a k short, ofBytes_littleEndian b k short,
    ← Bits.ofNat_mod_two_pow (8 * k) (8 * k) a.toNat le_rfl, same, Bits.ofNat_mod_two_pow _ _ _ le_rfl]

theorem littleEndian_long (v : UInt64) : littleEndian v 4 ++ littleEndian (v >>> 32) 4 = littleEndian v 8 := by
  apply Bits.ofBytes_injective
  have shifted : (v >>> 32).toNat = v.toNat / 2 ^ 32 := by
    rw [UInt64.toNat_shiftRight, Nat.shiftRight_eq_div_pow]
    rfl
  rw [Bits.ofBytes_append, ofBytes_littleEndian v 4 (by decide), ofBytes_littleEndian _ 4 (by decide),
    ofBytes_littleEndian v 8 (by decide), shifted, ← Bits.ofNat_add]

end Wire

namespace Message

variable (m : Message)

section Aligned

theorem run_emitBytes_putAll (k : Nat) (short : k ≤ 8) (clean : m.packer.Clean)
    (full : 8 * k ≤ m.packer.count.toNat) (room : m.stream.canWrite k = true) :
    ∃ p : BitPacker, m.run (Wire.emitBytes k) =
        (.ok (), ⟨m.stream.putAll (Wire.littleEndian m.packer.acc k), p, m.mode⟩) ∧
      p.Clean ∧ p.count.toNat = m.packer.count.toNat - 8 * k := by
  induction k generalizing m with
  | zero => exact ⟨m.packer, rfl, clean, rfl⟩
  | succ k ih =>
    have first : m.run Wire.emitByte =
        (.ok (), ⟨m.stream.putAll [m.packer.acc.toUInt8], m.packer.shiftByte, m.mode⟩) := by
      rw [run_emitByte_eq, if_pos (ByteStream.canWrite_of_le room (by omega))]
    let m₁ : Message := ⟨m.stream.putAll [m.packer.acc.toUInt8], m.packer.shiftByte, m.mode⟩
    have room₁ : m₁.stream.canWrite k = true := by
      rw [ByteStream.canWrite_putAll, List.length_singleton, Nat.add_comm]
      exact room
    have count₁ := m.packer.shiftByte_count_toNat (by omega)
    obtain ⟨p, rest, clean', count'⟩ :=
      ih m₁ (by omega) (m.packer.shiftByte_clean clean (by omega)) (by simp only [m₁]; omega) room₁
    refine ⟨p, ?_, clean', by simp only [m₁] at count'; omega⟩
    -- the byte written first is the low byte, and the rest come from the shifted accumulator
    rw [Wire.emitBytes, run_bind_ok m first, rest, Wire.littleEndian_succ _ k (by omega),
      ← List.singleton_append, ByteStream.putAll_append]
    rfl

theorem run_pushChunk_aligned (chunk : UInt64) (n : UInt32) (boundary : m.packer = {})
    (positive : 0 < n.toNat) (narrow : n.toNat ≤ 32) (whole : n.toNat % 8 = 0)
    (room : m.stream.canWrite (n.toNat / 8) = true) :
    m.run (Wire.pushChunk chunk n) =
      (.ok (), ⟨m.stream.putAll (Wire.littleEndian chunk (n.toNat / 8)), {}, m.mode⟩) := by
  have clean : m.packer.Clean := boundary ▸ BitPacker.clean_empty
  have fits : m.packer.count.toNat + n.toNat ≤ 64 := by rw [boundary]; simpa using narrow.trans (by decide)
  let pushed : Message := { m with packer := m.packer.push chunk n }
  have count : pushed.packer.count.toNat = n.toNat := by
    rw [m.packer.push_count_toNat chunk n fits, boundary]
    simp
  have acc : pushed.packer.acc.toNat = chunk.toNat % 2 ^ n.toNat := by
    rw [m.packer.push_acc_toNat chunk n clean fits positive, boundary]
    simp
  obtain ⟨p, emitted, clean', count'⟩ :=
    run_emitBytes_putAll pushed (n.toNat / 8) (by omega) (m.packer.push_clean chunk n clean fits positive)
      (by omega) room
  have empty : p = {} := BitPacker.eq_empty clean' (by omega)
  -- the accumulator holds the chunk's low bits, which are all its whole bytes carry
  have bytes : Wire.littleEndian pushed.packer.acc (n.toNat / 8) = Wire.littleEndian chunk (n.toNat / 8) :=
    Wire.littleEndian_eq_of_mod (by omega) (by
      rw [acc, Nat.mod_mod_of_dvd _ (pow_dvd_pow 2 (by omega))])
  simp only [Wire.pushChunk, run_bind, run_modify, run_pendingBits]
  rw [count, emitted, bytes, empty]

/-- A bit-packed write of a whole byte, short, word or long that starts on a byte boundary writes
the value's little-endian bytes at the cursor and ends on a byte boundary. -/
theorem run_packBits_aligned (v : UInt64) (w : UInt32) (aligned : Wire.alignedWidth w = true)
    (boundary : m.packer = {}) (room : m.stream.canWrite (w.toNat / 8) = true) :
    m.run (Wire.packBits v w) =
      (.ok (), ⟨m.stream.putAll (Wire.littleEndian v (w.toNat / 8)), {}, m.mode⟩) := by
  have widths : w.toNat = 8 ∨ w.toNat = 16 ∨ w.toNat = 32 ∨ w.toNat = 64 := by
    simp only [Wire.alignedWidth, decide_eq_true_eq] at aligned
    rcases aligned with rfl | rfl | rfl | rfl <;> simp
  have valid := Wire.packedWidth_valid (w := w) (by omega) (by omega)
  by_cases narrow : w ≤ 32
  · have narrow' : w.toNat ≤ 32 := UInt32.le_iff_toNat_le.mp narrow
    simp only [Wire.packBits, valid, if_false, narrow, if_true]
    exact m.run_pushChunk_aligned v w boundary (by omega) narrow' (by omega) room
  · -- a long goes as its low word and then its high word, each on a byte boundary
    obtain rfl : w = 64 := UInt32.toNat_inj.mp (by have := (Wire.upperChunk_toNat narrow).1; simp; omega)
    have first : m.run (Wire.pushChunk v 32) =
        (.ok (), ⟨m.stream.putAll (Wire.littleEndian v 4), {}, m.mode⟩) :=
      m.run_pushChunk_aligned v 32 boundary (by decide) (by decide) (by decide)
        (ByteStream.canWrite_of_le room (by decide))
    have second : Message.run ⟨m.stream.putAll (Wire.littleEndian v 4), {}, m.mode⟩ (Wire.pushChunk (v >>> 32) 32) =
        (.ok (), ⟨(m.stream.putAll (Wire.littleEndian v 4)).putAll (Wire.littleEndian (v >>> 32) 4), {}, m.mode⟩) :=
      run_pushChunk_aligned _ (v >>> 32) 32 rfl (by decide) (by decide) (by decide)
        (by rw [ByteStream.canWrite_putAll, Wire.length_littleEndian]; exact room)
    simp only [Wire.packBits, valid, if_false, narrow, run_bind]
    rw [first]
    simp only [show (64 : UInt32) - 32 = 32 from rfl]
    rw [second, ← ByteStream.putAll_append, Wire.littleEndian_long]
    rfl

theorem run_encode_byteAligned (v : UInt64) (w : UInt32) (aligned : Wire.alignedWidth w = true)
    (layout : m.mode = .byteAligned) (room : m.stream.canWrite (w.toNat / 8) = true) :
    m.run (Wire.encode v w) =
      (.ok (), ⟨m.stream.putAll (Wire.littleEndian v (w.toNat / 8)), m.packer, m.mode⟩) := by
  simp only [Wire.encode, run_bind, run_mode, layout, aligned, if_true]
  rw [run_putBytes_eq, Wire.length_littleEndian, if_pos room, layout]

end Aligned

section Short

theorem run_absorbBytes_short (k : Nat) (short : m.stream.bytes.size - m.stream.pos < k) :
    ∃ m', m.run (Wire.absorbBytes k) = (.error (.streamOverflow .reading), m') := by
  induction k generalizing m with
  | zero => omega
  | succ k ih =>
    by_cases inside : m.stream.canRead 1 = true
    · have left : m.stream.pos + 1 ≤ m.stream.bytes.size := of_decide_eq_true inside
      let m₁ : Message := ⟨{ m.stream with pos := m.stream.pos + 1 }, m.packer.absorb m.stream.peekByte, m.mode⟩
      have first : m.run Wire.absorbByte = (.ok (), m₁) := by
        rw [run_absorbByte_eq, if_pos inside]
      obtain ⟨m', rest⟩ := ih m₁ (show m.stream.bytes.size - (m.stream.pos + 1) < k by omega)
      exact ⟨m', by rw [Wire.absorbBytes, run_bind_ok m first, rest]⟩
    · have first : m.run Wire.absorbByte = (.error (.streamOverflow .reading), m) := by
        rw [run_absorbByte_eq, if_neg inside]
      exact ⟨m, by rw [Wire.absorbBytes, run_bind_error m first]⟩

theorem run_takeChunk_short (n : UInt32) (short : m.unread.length < n.toNat) :
    ∃ m', m.run (Wire.takeChunk n) = (.error (.streamOverflow .reading), m') := by
  rw [length_unread] at short
  have below : m.packer.count < n := UInt32.lt_iff_toNat_lt.mpr (by omega)
  have gap : (n - m.packer.count).toNat = n.toNat - m.packer.count.toNat :=
    UInt32.toNat_sub_of_le _ _ (UInt32.le_of_lt below)
  -- the bytes left hold fewer bits than the chunk lacks, so one of the reads runs out
  obtain ⟨m', failed⟩ := m.run_absorbBytes_short (((n - m.packer.count).toNat + 7) / 8) (by rw [gap]; omega)
  refine ⟨m', ?_⟩
  simp only [Wire.takeChunk, run_bind, run_pendingBits, if_pos below]
  rw [failed]

theorem run_unpackBits_short (w : UInt32) (reading : m.Reading) (positive : 0 < w.toNat)
    (within : w.toNat ≤ 64) (short : m.unread.length < w.toNat) :
    ∃ m', m.run (Wire.unpackBits w) = (.error (.streamOverflow .reading), m') := by
  have valid := Wire.packedWidth_valid positive within
  by_cases narrow : w ≤ 32
  · simp only [Wire.unpackBits, valid, if_false, narrow, if_true]
    exact m.run_takeChunk_short w short
  · obtain ⟨wide, high⟩ := Wire.upperChunk_toNat narrow
    simp only [Wire.unpackBits, valid, if_false, narrow, run_bind]
    by_cases lowHeld : 32 ≤ m.unread.length
    · -- the low word is there and the high one runs out
      obtain ⟨m₁, low, run₁, -, unread₁, -⟩ :=
        m.run_takeChunk 32 reading (by decide) (m.unread.take 32) (m.unread.drop 32)
          (List.take_append_drop _ _).symm (by simp; omega)
      obtain ⟨m', failed⟩ := m₁.run_takeChunk_short (w - 32) (by rw [unread₁, List.length_drop, high]; omega)
      refine ⟨m', ?_⟩
      rw [run₁]
      simp only [failed]
    · obtain ⟨m', failed⟩ := m.run_takeChunk_short 32 (by simp; omega)
      exact ⟨m', by rw [failed]⟩

end Short

theorem run_map_fst {α β : Type} (x : Wire α) (f : α → β) :
    (m.run (x >>= fun a => pure (f a))).1 = (m.run x).1.map f := by
  rw [run_bind]
  rcases m.run x with ⟨_ | _, _⟩ <;> rfl

/-- Reading fields of 1 to 64 bits returns the consecutive fields of what is left, or a stream
overflow exactly when the widths add up to more. -/
theorem run_unpackAll (widths : List UInt32) (valid : ∀ w ∈ widths, 0 < w.toNat ∧ w.toNat ≤ 64)
    (reading : m.Reading) :
    (m.run (widths.mapM Wire.unpackBits)).1 =
      if (widths.map (·.toNat)).sum ≤ m.unread.length then
        .ok ((Bits.fields (widths.map (·.toNat)) m.unread).map fun f => UInt64.ofNat (Bits.toNat f))
      else .error (.streamOverflow .reading) := by
  induction widths generalizing m with
  | nil => simp [Bits.fields]
  | cons w rest ih =>
    obtain ⟨positive, within⟩ := valid w List.mem_cons_self
    have later := fun m₁ : Message => ih m₁ (fun u mem => valid u (List.mem_cons_of_mem _ mem))
    rw [List.mapM_cons, List.map_cons, List.sum_cons, Bits.fields, List.map_cons]
    by_cases held : w.toNat ≤ m.unread.length
    · -- the first field is there; the rest are read from what it leaves
      obtain ⟨m₁, run₁, reading₁, unread₁⟩ :=
        Wire.parses_unpackBits w positive within (m.unread.take w.toNat) (by simp; omega) m
          (m.unread.drop w.toNat) reading (List.take_append_drop _ _).symm
      rw [run_bind_ok m run₁, run_map_fst, later m₁ reading₁, unread₁, List.length_drop]
      by_cases enough : (rest.map (·.toNat)).sum ≤ m.unread.length - w.toNat
      · rw [if_pos enough, if_pos (by omega)]
        rfl
      · rw [if_neg enough, if_neg (by omega)]
        rfl
    · obtain ⟨m', failed⟩ := m.run_unpackBits_short w reading positive within (by omega)
      rw [run_bind_error m failed, if_neg (by omega)]

end Message

namespace Wire

/-- A writer's flushed output holds its bits byte by byte: bit `k` is bit `k % 8` of byte `k / 8`,
the last byte is completed with zeros, and no byte more is written. -/
theorem Emits.layout {α : Type} {w : Wire α} {a : α} {bits : List Bool} (emits : Emits w a bits) :
    (Message.encode w).1 = .ok a ∧ (Message.encode w).2.length = (bits.length + 7) / 8 ∧
      ∀ k, ((Message.encode w).2.getD (k / 8) 0).toNat.testBit (k % 8) = bits.getD k false := by
  obtain ⟨wrote, pad, short, laid⟩ := encode_bits emits
  have length := congrArg List.length laid
  rw [Bits.length_ofBytes, List.length_append, List.length_replicate] at length
  refine ⟨wrote, by omega, fun k => ?_⟩
  rw [← Bits.getD_ofBytes, laid, Bits.getD_append_zeros]

theorem emits_packAll (pairs : List (UInt64 × UInt32))
    (widths : ∀ p ∈ pairs, 0 < p.2.toNat ∧ p.2.toNat ≤ 64) :
    Emits (pairs.forM fun p => packBits p.1 p.2) () (pairs.flatMap fun p => Bits.ofNat p.2.toNat p.1.toNat) :=
  emits_forM pairs _ _ fun p mem => emits_packBits p.1 p.2 (widths p mem).1 (widths p mem).2

/-- The bit packer lays values out least significant bit first, bit `k` as bit `k % 8` of byte `k /
8`, reads fields back or overflows exactly when short, and writes aligned values as the aligned
layout does. -/
theorem bitPacking_lsbFirst (pairs : List (UInt64 × UInt32))
    (pairWidths : ∀ p ∈ pairs, 0 < p.2.toNat ∧ p.2.toNat ≤ 64) (bytes : List UInt8) (widths : List UInt32)
    (readWidths : ∀ w ∈ widths, 0 < w.toNat ∧ w.toNat ≤ 64) (m : Message) (v : UInt64) (w : UInt32)
    (aligned : alignedWidth w = true) (boundary : m.packer = {})
    (room : m.stream.canWrite (w.toNat / 8) = true) :
    let bits := pairs.flatMap fun p => Bits.ofNat p.2.toNat p.1.toNat
    let out := Message.encode (pairs.forM fun p => packBits p.1 p.2)
    let cut := widths.map (·.toNat)
    let written := m.stream.putAll (littleEndian v (w.toNat / 8))
    (out.1 = .ok () ∧ out.2.length = (bits.length + 7) / 8 ∧
        ∀ k, (out.2.getD (k / 8) 0).toNat.testBit (k % 8) = bits.getD k false) ∧
      ((Message.ofBytes bytes).run (widths.mapM unpackBits)).1 =
        (if cut.sum ≤ 8 * bytes.length then
          .ok ((Bits.fields cut (Bits.ofBytes bytes)).map fun f => UInt64.ofNat (Bits.toNat f))
        else .error (.streamOverflow .reading)) ∧
      m.run (packBits v w) = (.ok (), ⟨written, {}, m.mode⟩) ∧
      { m with mode := .byteAligned }.run (encode v w) = (.ok (), ⟨written, {}, .byteAligned⟩) := by
  intro bits out cut written
  obtain ⟨reading, unread⟩ := ofBytes_reading bytes
  have decoded := Message.run_unpackAll _ widths readWidths reading
  rw [unread, Bits.length_ofBytes] at decoded
  have oob : ({ m with mode := .byteAligned } : Message).run (encode v w) = (.ok (), ⟨written, {}, .byteAligned⟩) := by
    rw [Message.run_encode_byteAligned { m with mode := .byteAligned } v w aligned rfl room, ← boundary]
  exact ⟨(emits_packAll pairs pairWidths).layout, decoded, m.run_packBits_aligned v w aligned boundary room, oob⟩

theorem bitPacking_lsbFirst_testValues :
    (∀ p ∈ [((1 : UInt64), (1 : UInt32)), (5, 3)], 0 < p.2.toNat ∧ p.2.toNat ≤ 64) ∧
      (∀ w ∈ [(6 : UInt32), 3], 0 < w.toNat ∧ w.toNat ≤ 64) ∧ alignedWidth 32 = true ∧
      (Message.onStream ByteStream.growing).packer = {} ∧
      ByteStream.growing.canWrite ((32 : UInt32).toNat / 8) = true ∧
      let pairs : List (UInt64 × UInt32) := [(1, 1), (5, 3)]
      let bits := pairs.flatMap fun p => Bits.ofNat p.2.toNat p.1.toNat
      let out := Message.encode (pairs.forM fun p => packBits p.1 p.2)
      let cut := [(6 : UInt32), 3].map (·.toNat)
      let written := ByteStream.growing.putAll (littleEndian 0x04030201 ((32 : UInt32).toNat / 8))
      (out.1 = .ok () ∧ out.2.length = (bits.length + 7) / 8 ∧
          ∀ k, (out.2.getD (k / 8) 0).toNat.testBit (k % 8) = bits.getD k false) ∧
        ((Message.ofBytes [0xFF]).run ([(6 : UInt32), 3].mapM unpackBits)).1 =
          (if cut.sum ≤ 8 * [(0xFF : UInt8)].length then
            .ok ((Bits.fields cut (Bits.ofBytes [0xFF])).map fun f => UInt64.ofNat (Bits.toNat f))
          else .error (.streamOverflow .reading)) ∧
        (Message.onStream ByteStream.growing).run (packBits 0x04030201 32) =
          (.ok (), ⟨written, {}, .bitPacked⟩) ∧
        Message.run ⟨ByteStream.growing, {}, .byteAligned⟩ (encode 0x04030201 32) =
          (.ok (), ⟨written, {}, .byteAligned⟩) :=
  ⟨by simp, by simp, rfl, rfl, rfl,
    bitPacking_lsbFirst [(1, 1), (5, 3)] (by simp) [0xFF] [6, 3] (by simp)
      (Message.onStream ByteStream.growing) 0x04030201 32 rfl rfl rfl⟩

end Wire

end Netcode
