import Mathlib
import Netcode.Proofs.Wire.Codec
import Netcode.Proofs.Wire.Bytes

set_option autoImplicit false

namespace Netcode

theorem ByteStream.putAll_of_atEnd (s : ByteStream) (src : List UInt8) (atEnd : s.pos = s.bytes.size) :
    (s.putAll src).bytes.data.toList = s.bytes.data.toList ++ src ∧
      (s.putAll src).pos = (s.putAll src).bytes.size ∧ (s.putAll src).capacity = s.capacity := by
  induction src generalizing s with
  | nil => exact ⟨by simp [ByteStream.putAll], atEnd, rfl⟩
  | cons b rest ih =>
    have pushed : ByteStream.putByte s.bytes s.pos b = s.bytes.push b := by
      simp [ByteStream.putByte, atEnd]
    obtain ⟨bytes, pos, capacity⟩ := ih ⟨s.bytes.push b, s.pos + 1, s.capacity⟩ (by simp [atEnd])
    refine ⟨?_, ?_, ?_⟩
    · simp only [ByteStream.putAll, pushed, bytes, ByteArray.data_push, Array.toList_push,
        List.append_assoc, List.singleton_append]
    · simp only [ByteStream.putAll, pushed, pos]
    · simp only [ByteStream.putAll, pushed, capacity]

theorem ByteStream.take_fst (s : ByteStream) (n : Nat) :
    (s.take n).1 = (s.bytes.data.toList.drop s.pos).take n := by
  simp [ByteStream.take, ByteArray.toList_eq_data_toList]

namespace Bits

theorem ofBytes_take (bytes : List UInt8) (k : Nat) :
    ofBytes (bytes.take k) = (ofBytes bytes).take (8 * k) := by
  induction bytes generalizing k with
  | nil => simp
  | cons b rest ih =>
    cases k with
    | zero => simp
    | succ k =>
      rw [List.take_succ_cons, ofBytes_cons, ofBytes_cons, ih, Nat.mul_succ, Nat.add_comm,
        List.take_add, List.take_left' (length_ofNat 8 _), List.drop_left' (length_ofNat 8 _)]

theorem ofBytes_drop (bytes : List UInt8) (k : Nat) :
    ofBytes (bytes.drop k) = (ofBytes bytes).drop (8 * k) := by
  induction bytes generalizing k with
  | nil => simp
  | cons b rest ih =>
    cases k with
    | zero => simp
    | succ k =>
      rw [List.drop_succ_cons, ofBytes_cons, ih, Nat.mul_succ, Nat.add_comm, ← List.drop_drop,
        List.drop_left' (length_ofNat 8 _)]

theorem ofNat_inj_byte {a b : UInt8} (same : ofNat 8 a.toNat = ofNat 8 b.toNat) : a = b := by
  have values := congrArg toNat same
  rw [toNat_ofNat, toNat_ofNat, Nat.mod_eq_of_lt a.toNat_lt, Nat.mod_eq_of_lt b.toNat_lt] at values
  exact UInt8.toNat_inj.mp values

theorem ofBytes_injective {a b : List UInt8} (same : ofBytes a = ofBytes b) : a = b := by
  induction a generalizing b with
  | nil =>
    cases b with
    | nil => rfl
    | cons y ys => simp at same
  | cons x xs ih =>
    cases b with
    | nil => simp at same
    | cons y ys =>
      rw [ofBytes_cons, ofBytes_cons] at same
      obtain ⟨head, tail⟩ := List.append_inj same (by simp)
      rw [ofNat_inj_byte head, ih tail]

theorem ofBytes_split {bytes front : List UInt8} {rest : List Bool}
    (split : ofBytes bytes = ofBytes front ++ rest) :
    bytes.take front.length = front ∧ ofBytes (bytes.drop front.length) = rest := by
  refine ⟨ofBytes_injective ?_, ?_⟩
  · rw [ofBytes_take, split, List.take_left' (length_ofBytes front)]
  · rw [ofBytes_drop, split, List.drop_left' (length_ofBytes front)]

end Bits

/-- The widths a layout can move: from 1 to 64 bits packed, a byte, a short, a word or a long
aligned. -/
def CodecMode.Carries (mode : CodecMode) (w : UInt32) : Prop :=
  0 < w.toNat ∧ w.toNat ≤ 64 ∧ (mode = .byteAligned → Wire.alignedWidth w = true)

instance (mode : CodecMode) (w : UInt32) : Decidable (mode.Carries w) :=
  inferInstanceAs (Decidable (_ ∧ _ ∧ _))

theorem CodecMode.carries_byteWidths (mode : CodecMode) :
    mode.Carries 8 ∧ mode.Carries 16 ∧ mode.Carries 32 := by
  cases mode <;> decide

theorem CodecMode.Carries.whole {mode : CodecMode} {w : UInt32} (carries : mode.Carries w)
    (aligned : mode = .byteAligned) : 8 * (w.toNat / 8) = w.toNat := by
  have widths := carries.2.2 aligned
  simp only [Wire.alignedWidth, decide_eq_true_eq] at widths
  rcases widths with rfl | rfl | rfl | rfl <;> rfl

namespace Message

/-- A writer between two values in the layout `mode`: it appends to a growing stream, less than
a byte waits in its accumulator, and nothing in the byte-aligned layout. -/
structure Writer (mode : CodecMode) (m : Message) : Prop extends m.Sink where
  layout : m.mode = mode
  pending : m.packer.count.toNat < 8
  aligned : mode = .byteAligned → m.packer.count.toNat = 0

/-- A reader between two values in the layout `mode`: less than a byte waits in its
accumulator, and nothing in the byte-aligned layout. -/
structure Reader (mode : CodecMode) (m : Message) : Prop where
  layout : m.mode = mode
  clean : m.packer.Clean
  pending : m.packer.count.toNat < 8
  aligned : mode = .byteAligned → m.packer.count.toNat = 0

variable {m : Message}

theorem writer_bitPacked_iff : m.Writer .bitPacked ↔ m.Writing :=
  ⟨fun w => ⟨w.toSink, w.layout, w.pending⟩, fun w => ⟨w.toSink, w.mode, w.pending, nofun⟩⟩

theorem reader_bitPacked_iff : m.Reader .bitPacked ↔ m.Reading :=
  ⟨fun r => ⟨r.layout, r.clean, r.pending⟩, fun r => ⟨r.mode, r.clean, r.pending, nofun⟩⟩

theorem length_written : m.written.length = 8 * m.stream.bytes.size + m.packer.count.toNat := by
  simp [written, BitPacker.bits]

theorem Writer.count_eq {mode : CodecMode} (writer : m.Writer mode) :
    m.packer.count.toNat = m.written.length % 8 := by
  have := writer.pending
  rw [length_written]
  omega

theorem Reader.count_eq {mode : CodecMode} (reader : m.Reader mode) :
    m.packer.count.toNat = m.unread.length % 8 := by
  have := reader.pending
  rw [length_unread]
  omega

theorem Writer.written_eq {mode : CodecMode} (writer : m.Writer mode) (aligned : mode = .byteAligned) :
    m.written = Bits.ofBytes m.stream.bytes.data.toList := by
  simp [written, BitPacker.bits, writer.aligned aligned]

theorem Reader.unread_eq {mode : CodecMode} (reader : m.Reader mode) (aligned : mode = .byteAligned) :
    m.unread = Bits.ofBytes (m.stream.bytes.data.toList.drop m.stream.pos) := by
  simp [unread, BitPacker.bits, reader.aligned aligned]

theorem run_putBytes_eq (src : List UInt8) : m.run (Wire.putBytes src) =
    if m.stream.canWrite src.length then (.ok (), ⟨m.stream.putAll src, m.packer, m.mode⟩)
    else (.error (.streamOverflow .writing), m) := by
  cases m
  rfl

theorem run_getBytes_eq (n : Nat) : m.run (Wire.getBytes n) =
    if m.stream.canRead n then (.ok (m.stream.take n).1, ⟨(m.stream.take n).2, m.packer, m.mode⟩)
    else (.error (.streamOverflow .reading), m) := by
  cases m
  rfl

end Message

namespace Wire

/-- On every writer in the layout `mode`, `w` succeeds with `a` and appends `bits` to what was
written. -/
def EmitsIn {α : Type} (mode : CodecMode) (w : Wire α) (a : α) (bits : List Bool) : Prop :=
  ∀ m : Message, m.Writer mode →
    ∃ m' : Message, m.run w = (.ok a, m') ∧ m'.Writer mode ∧ m'.written = m.written ++ bits

/-- On every reader in the layout `mode` whose unread bits start with `bits`, `r` succeeds with
`a` and leaves the bits after them. -/
def ParsesIn {α : Type} (mode : CodecMode) (r : Wire α) (bits : List Bool) (a : α) : Prop :=
  ∀ (m : Message) (rest : List Bool), m.Reader mode → m.unread = bits ++ rest →
    ∃ m' : Message, m.run r = (.ok a, m') ∧ m'.Reader mode ∧ m'.unread = rest

section Compose

variable {α β : Type} {mode : CodecMode}

theorem emitsIn_pure (a : α) : EmitsIn mode (pure a) a [] :=
  fun m writer => ⟨m, rfl, writer, by simp⟩

theorem parsesIn_pure (a : α) : ParsesIn mode (pure a) [] a :=
  fun m rest reader input => ⟨m, rfl, reader, by simpa using input⟩

theorem EmitsIn.bind {x : Wire α} {f : α → Wire β} {a : α} {b : β} {front back : List Bool}
    (first : EmitsIn mode x a front) (next : EmitsIn mode (f a) b back) :
    EmitsIn mode (x >>= f) b (front ++ back) := by
  intro m writer
  obtain ⟨m₁, run₁, writer₁, written₁⟩ := first m writer
  obtain ⟨m₂, run₂, writer₂, written₂⟩ := next m₁ writer₁
  refine ⟨m₂, ?_, writer₂, ?_⟩
  · rw [Message.run_bind_ok m run₁, run₂]
  · rw [written₂, written₁, List.append_assoc]

theorem ParsesIn.bind {x : Wire α} {f : α → Wire β} {a : α} {b : β} {front back : List Bool}
    (first : ParsesIn mode x front a) (next : ParsesIn mode (f a) back b) :
    ParsesIn mode (x >>= f) (front ++ back) b := by
  intro m rest reader input
  obtain ⟨m₁, run₁, reader₁, unread₁⟩ :=
    first m (back ++ rest) reader (by rw [input, List.append_assoc])
  obtain ⟨m₂, run₂, reader₂, unread₂⟩ := next m₁ rest reader₁ unread₁
  exact ⟨m₂, by rw [Message.run_bind_ok m run₁, run₂], reader₂, unread₂⟩

theorem EmitsIn.seq {x : Wire Unit} {y : Wire β} {b : β} {front back : List Bool}
    (first : EmitsIn mode x () front) (next : EmitsIn mode y b back) :
    EmitsIn mode (x >>= fun _ => y) b (front ++ back) :=
  first.bind next

theorem ParsesIn.map {r : Wire α} {bits : List Bool} {a : α} (parses : ParsesIn mode r bits a)
    (f : α → β) : ParsesIn mode (r >>= fun x => pure (f x)) bits (f a) :=
  List.append_nil bits ▸ parses.bind (parsesIn_pure (f a))

theorem EmitsIn.of_eq {w : Wire α} {a : α} {bits bits' : List Bool} (emits : EmitsIn mode w a bits)
    (same : bits = bits') : EmitsIn mode w a bits' :=
  same ▸ emits

theorem ParsesIn.of_eq {r : Wire α} {a a' : α} {bits bits' : List Bool}
    (parses : ParsesIn mode r bits a) (same : bits = bits') (value : a = a') :
    ParsesIn mode r bits' a' :=
  same ▸ value ▸ parses

theorem Emits.inBitPacked {w : Wire α} {a : α} {bits : List Bool} (emits : Emits w a bits) :
    EmitsIn .bitPacked w a bits := by
  intro m writer
  obtain ⟨m', run', writing', written'⟩ := emits m (Message.writer_bitPacked_iff.mp writer)
  exact ⟨m', run', Message.writer_bitPacked_iff.mpr writing', written'⟩

theorem Parses.inBitPacked {r : Wire α} {bits : List Bool} {a : α} (parses : Parses r bits a) :
    ParsesIn .bitPacked r bits a := by
  intro m rest reader input
  obtain ⟨m', run', reading', unread'⟩ := parses m rest (Message.reader_bitPacked_iff.mp reader) input
  exact ⟨m', run', Message.reader_bitPacked_iff.mpr reading', unread'⟩

theorem EmitsIn.bitPacked {w : Wire α} {a : α} {bits : List Bool} (emits : EmitsIn .bitPacked w a bits) :
    Emits w a bits := by
  intro m writing
  obtain ⟨m', run', writer', written'⟩ := emits m (Message.writer_bitPacked_iff.mpr writing)
  exact ⟨m', run', Message.writer_bitPacked_iff.mp writer', written'⟩

theorem ParsesIn.bitPacked {r : Wire α} {bits : List Bool} {a : α} (parses : ParsesIn .bitPacked r bits a) :
    Parses r bits a := by
  intro m rest reading input
  obtain ⟨m', run', reader', unread'⟩ := parses m rest (Message.reader_bitPacked_iff.mpr reading) input
  exact ⟨m', run', Message.reader_bitPacked_iff.mp reader', unread'⟩

end Compose

section Aligned

theorem emitsIn_putBytes (src : List UInt8) :
    EmitsIn .byteAligned (putBytes src) () (Bits.ofBytes src) := by
  intro m writer
  have room : m.stream.canWrite src.length = true := by simp [ByteStream.canWrite, writer.growing]
  obtain ⟨bytes, atEnd, capacity⟩ := m.stream.putAll_of_atEnd src writer.atEnd
  let m' : Message := ⟨m.stream.putAll src, m.packer, m.mode⟩
  have writer' : m'.Writer .byteAligned :=
    ⟨⟨capacity.trans writer.growing, atEnd, writer.clean⟩, writer.layout, writer.pending, writer.aligned⟩
  refine ⟨m', by rw [Message.run_putBytes_eq, if_pos room], writer', ?_⟩
  rw [writer'.written_eq rfl, writer.written_eq rfl]
  simp only [m', bytes, Bits.ofBytes_append]

theorem parsesIn_getBytes (bytes : List UInt8) (nonempty : 0 < bytes.length) :
    ParsesIn .byteAligned (getBytes bytes.length) (Bits.ofBytes bytes) bytes := by
  intro m rest reader input
  rw [reader.unread_eq rfl] at input
  obtain ⟨front, back⟩ := Bits.ofBytes_split input
  have enough : m.stream.pos + bytes.length ≤ m.stream.bytes.size := by
    have := congrArg List.length front
    simp only [List.length_take, List.length_drop, Array.length_toList, ByteArray.size_data] at this
    omega
  have inside : m.stream.canRead bytes.length = true := decide_eq_true enough
  let m' : Message := ⟨(m.stream.take bytes.length).2, m.packer, m.mode⟩
  have reader' : m'.Reader .byteAligned := ⟨reader.layout, reader.clean, reader.pending, reader.aligned⟩
  refine ⟨m', ?_, reader', ?_⟩
  · rw [Message.run_getBytes_eq, if_pos inside, ByteStream.take_fst, front]
  · rw [reader'.unread_eq rfl, ← back, List.drop_drop]
    rfl

end Aligned

section Fields

variable (mode : CodecMode)

theorem emitsIn_encode (data : UInt64) (w : UInt32) (carries : mode.Carries w) :
    EmitsIn mode (encode data w) () (Bits.ofNat w.toNat data.toNat) := by
  cases mode with
  | bitPacked =>
    intro m writer
    obtain ⟨m', run', writer', written'⟩ :=
      (emits_packBits data w carries.1 carries.2.1).inBitPacked m writer
    refine ⟨m', ?_, writer', written'⟩
    simp only [encode, Message.run_bind, Message.run_mode, writer.layout]
    exact run'
  | byteAligned =>
    intro m writer
    obtain ⟨m', run', writer', written'⟩ :=
      emitsIn_putBytes (littleEndian data (w.toNat / 8)) m writer
    refine ⟨m', ?_, writer', ?_⟩
    · simp only [encode, Message.run_bind, Message.run_mode, writer.layout, carries.2.2 rfl, if_true]
      exact run'
    · rw [written', ofBytes_littleEndian data _ (by have := carries.2.1; omega), carries.whole rfl]

/-- Both layouts read a field of `w` bits back as the low `w` bits of the value it was laid out
from. -/
theorem parsesIn_decode (w : UInt32) (carries : mode.Carries w) (v : Nat) :
    ParsesIn mode (decode w) (Bits.ofNat w.toNat v) (UInt64.ofNat (v % 2 ^ w.toNat)) := by
  cases mode with
  | bitPacked =>
    intro m rest reader input
    obtain ⟨m', run', reader', unread'⟩ :=
      (parses_unpackBits w carries.1 carries.2.1 _ (Bits.length_ofNat _ _)).inBitPacked m rest reader input
    refine ⟨m', ?_, reader', unread'⟩
    simp only [decode, Message.run_bind, Message.run_mode, reader.layout]
    rw [run', Bits.toNat_ofNat]
  | byteAligned =>
    -- the field is the little-endian bytes of the value's low bits
    have short : w.toNat / 8 ≤ 8 := by have := carries.2.1; omega
    have whole := carries.whole rfl
    have low : v % 2 ^ 64 % 2 ^ w.toNat = v % 2 ^ w.toNat :=
      Nat.mod_mod_of_dvd v (Nat.pow_dvd_pow 2 carries.2.1)
    let bytes := littleEndian (UInt64.ofNat v) (w.toNat / 8)
    have layout : Bits.ofBytes bytes = Bits.ofNat w.toNat v := by
      rw [ofBytes_littleEndian _ _ short, whole, UInt64.toNat_ofNat',
        Bits.ofNat_mod_two_pow _ _ _ carries.2.1]
    have count : bytes.length = w.toNat / 8 := by simp [bytes, littleEndian]
    have value : ofLittleEndian bytes = UInt64.ofNat (v % 2 ^ w.toNat) := by
      apply UInt64.toNat_inj.mp
      have fits : v % 2 ^ w.toNat < 2 ^ 64 :=
        Nat.lt_of_lt_of_le (Nat.mod_lt _ (Nat.two_pow_pos _)) (Nat.pow_le_pow_right (by decide) carries.2.1)
      rw [toNat_ofLittleEndian_littleEndian _ _ short, whole, UInt64.toNat_ofNat', low,
        UInt64.toNat_ofNat_of_lt' fits]
    intro m rest reader input
    obtain ⟨m', run', reader', unread'⟩ :=
      parsesIn_getBytes bytes (by have := carries.1; omega) m rest reader (layout ▸ input)
    refine ⟨m', ?_, reader', unread'⟩
    simp only [decode, Message.run_bind, Message.run_mode, reader.layout, carries.2.2 rfl, if_true]
    rw [← count, run']
    simp only [Message.run_pure, value]

theorem emitsIn_writeBits (value : Int64) (bits : Int32) (carries : mode.Carries (widthOf bits)) :
    EmitsIn mode (writeBits value bits) () (Bits.ofNat (widthOf bits).toNat value.toUInt64.toNat) :=
  emitsIn_encode mode value.toUInt64 (widthOf bits) carries

theorem parsesIn_readBits (bits : Int32) (carries : mode.Carries (widthOf bits)) (v : Nat) :
    ParsesIn mode (readBits bits) (Bits.ofNat (widthOf bits).toNat v)
      (extendSign bits (UInt64.ofNat (v % 2 ^ (widthOf bits).toNat))) :=
  (parsesIn_decode mode _ carries v).map (extendSign bits)

end Fields

section Switch

variable {mode : CodecMode}

theorem run_setMode_same (m : Message) (target : CodecMode) (same : m.mode = target) (writing : Bool) :
    m.run (setMode target writing) = (.ok (), m) := by
  simp only [setMode, Message.run_bind, Message.run_mode, same, ne_eq, not_true_eq_false, if_false]
  rfl

theorem run_setMode_writer (target : CodecMode) (m : Message) (writer : m.Writer mode)
    (differs : mode ≠ target) :
    ∃ m' : Message, m.run (setMode target true) = (.ok (), m') ∧ m'.Writer target ∧
      m'.written = m.written ++ List.replicate ((8 - m.written.length % 8) % 8) false := by
  obtain ⟨m₁, run₁, sink₁, empty₁, mode₁, written₁⟩ := run_flushBits m writer.toSink writer.pending
  have switch : m.mode ≠ target := writer.layout ▸ differs
  have count : m₁.packer.count.toNat = 0 := by rw [empty₁]; rfl
  refine ⟨{ m₁ with mode := target }, ?_,
    ⟨⟨sink₁.growing, sink₁.atEnd, sink₁.clean⟩, rfl, by simp [count], fun _ => count⟩, ?_⟩
  · simp only [setMode, Message.run_bind, Message.run_mode, ne_eq, switch, not_false_eq_true, if_true,
      if_true]
    rw [run₁]
    rfl
  · rw [← writer.count_eq]
    exact written₁

theorem run_setMode_reader (target : CodecMode) (m : Message) (reader : m.Reader mode)
    (differs : mode ≠ target) (pad rest : List Bool) (input : m.unread = pad ++ rest)
    (short : pad.length < 8) (whole : rest.length % 8 = 0) :
    ∃ m' : Message, m.run (setMode target false) = (.ok (), m') ∧ m'.Reader target ∧
      m'.unread = rest := by
  have switch : m.mode ≠ target := reader.layout ▸ differs
  -- the bits held back are exactly the pad, since what follows it is whole bytes
  have held : m.packer.bits.length = pad.length := by
    have := reader.count_eq
    rw [input, List.length_append] at this
    simp only [BitPacker.bits, Bits.length_ofNat]
    omega
  have after : Bits.ofBytes (m.stream.bytes.data.toList.drop m.stream.pos) = rest :=
    (List.append_inj input held).2
  let m' : Message := ⟨m.stream, {}, target⟩
  refine ⟨m', ?_, ⟨rfl, BitPacker.clean_empty, Nat.zero_lt_succ 7, fun _ => rfl⟩, ?_⟩
  · simp only [setMode, Message.run_bind, Message.run_mode, ne_eq, switch, not_false_eq_true, if_true,
      Bool.false_eq_true, if_false, align, Message.run_modify]
    rfl
  · simpa [m', Message.unread] using after

end Switch

/-- The value that a field of `bits` bits holds of `v`: its low `|bits|` bits, read in two's
complement when `bits` is negative. -/
def lowBits (bits : Int32) (v : Int64) : Int64 :=
  Int64.ofInt (if bits < 0 then v.toInt.bmod (2 ^ (widthOf bits).toNat)
    else v.toInt % ((2 ^ (widthOf bits).toNat : Nat) : Int))

theorem toNat_toUInt64_mod (v : Int64) (w : Nat) (within : w ≤ 64) :
    ((v.toUInt64.toNat % 2 ^ w : Nat) : Int) = v.toInt % ((2 ^ w : Nat) : Int) := by
  have word : (v.toUInt64.toNat : Int) = v.toInt % ((2 ^ 64 : Nat) : Int) := by
    have signed := BitVec.toInt_eq_toNat_bmod v.toBitVec
    rw [Int64.toInt_toBitVec] at signed
    rw [signed, Int.bmod_emod]
    exact (Int.emod_eq_of_lt (by omega) (by exact_mod_cast v.toBitVec.isLt)).symm
  rw [Int.natCast_emod, word,
    Int.emod_emod_of_dvd _ (Int.natCast_dvd_natCast.mpr (Nat.pow_dvd_pow 2 within))]

/-- A field read back gives the value's low bits, sign-extended for a negative width. -/
theorem extendSign_lowBits (bits : Int32) (valid : ValidWidth bits) (v : Int64) :
    extendSign bits (UInt64.ofNat (v.toUInt64.toNat % 2 ^ (widthOf bits).toNat)) = lowBits bits v := by
  apply Int64.toInt_inj.mp
  have low := toNat_toUInt64_mod v _ valid.2
  have range : ∀ x : Int, -2 ^ 63 ≤ x → x < 2 ^ 63 → x.bmod Int64.size = x := fun x lo hi =>
    Int.bmod_eq_of_le (by simp [Int64.size]; omega) (by simp [Int64.size]; omega)
  rw [lowBits, Int64.toInt_ofInt]
  by_cases narrow : (widthOf bits).toNat < 64
  · -- the field is narrower than the word, so its value fits whether extended or not
    have below : ((2 ^ (widthOf bits).toNat : Nat) : Int) ≤ 2 ^ 63 := by
      exact_mod_cast Nat.pow_le_pow_right (by decide) (by omega)
    have positive : (0 : Int) < ((2 ^ (widthOf bits).toNat : Nat) : Int) := by
      exact_mod_cast Nat.two_pow_pos _
    rw [toInt_extendSign bits _ valid narrow (Nat.mod_lt _ (Nat.two_pow_pos _)), low]
    split
    · have lo := @Int.le_bmod v.toInt (2 ^ (widthOf bits).toNat) (Nat.two_pow_pos _)
      have hi := @Int.bmod_lt v.toInt (2 ^ (widthOf bits).toNat) (Nat.two_pow_pos _)
      rw [Int.emod_bmod, range _ (by omega) (by omega)]
    · have lo := Int.emod_nonneg v.toInt (Int.ne_of_gt positive)
      have hi := Int.emod_lt_of_pos v.toInt positive
      rw [range _ (by omega) (by omega)]
  · -- the whole word: nothing is cut off
    have full : (widthOf bits).toNat = 64 := by have := valid.2; omega
    have word : UInt64.ofNat (v.toUInt64.toNat % 2 ^ (widthOf bits).toNat) = v.toUInt64 := by
      rw [full, Nat.mod_eq_of_lt v.toUInt64.toNat_lt, UInt64.ofNat_toNat]
    have kept : v.toInt.bmod Int64.size = v.toInt := range _ (Int64.le_toInt v) (Int64.toInt_lt v)
    have wide : ¬ widthOf bits < 64 := fun h => narrow (by simpa using UInt32.lt_iff_toNat_lt.mp h)
    rw [extendSign, word, if_neg (fun set => wide set.2.1), Int64.toInt64_toUInt64, full]
    have size : (2 ^ 64 : Nat) = Int64.size := rfl
    split
    · rw [size, Int.bmod_bmod, kept]
    · rw [size, Int.emod_bmod, kept]

end Wire

end Netcode
