import Netcode.Proofs.Wire.Packing

set_option autoImplicit false

namespace Netcode

namespace Wire

/-- On every bit-packed writer, `w` succeeds with `a` and appends `bits` to what was written. -/
def Emits {α : Type} (w : Wire α) (a : α) (bits : List Bool) : Prop :=
  ∀ m : Message, m.Writing →
    ∃ m' : Message, m.run w = (.ok a, m') ∧ m'.Writing ∧ m'.written = m.written ++ bits

/-- On every bit-packed reader whose unread bits start with `bits`, `r` succeeds with `a` and
leaves the bits after them. -/
def Parses {α : Type} (r : Wire α) (bits : List Bool) (a : α) : Prop :=
  ∀ (m : Message) (rest : List Bool), m.Reading → m.unread = bits ++ rest →
    ∃ m' : Message, m.run r = (.ok a, m') ∧ m'.Reading ∧ m'.unread = rest

section Compose

variable {α β : Type}

theorem emits_pure (a : α) : Emits (pure a) a [] :=
  fun m writing => ⟨m, rfl, writing, by simp⟩

theorem parses_pure (a : α) : Parses (pure a) [] a :=
  fun m rest reading input => ⟨m, rfl, reading, by simpa using input⟩

theorem Emits.bind {x : Wire α} {f : α → Wire β} {a : α} {b : β} {front back : List Bool}
    (first : Emits x a front) (next : Emits (f a) b back) : Emits (x >>= f) b (front ++ back) := by
  intro m writing
  obtain ⟨m₁, run₁, writing₁, written₁⟩ := first m writing
  obtain ⟨m₂, run₂, writing₂, written₂⟩ := next m₁ writing₁
  refine ⟨m₂, ?_, writing₂, ?_⟩
  · rw [Message.run_bind_ok m run₁, run₂]
  · rw [written₂, written₁, List.append_assoc]

theorem Parses.bind {x : Wire α} {f : α → Wire β} {a : α} {b : β} {front back : List Bool}
    (first : Parses x front a) (next : Parses (f a) back b) : Parses (x >>= f) (front ++ back) b := by
  intro m rest reading input
  obtain ⟨m₁, run₁, reading₁, unread₁⟩ := first m (back ++ rest) reading (by rw [input, List.append_assoc])
  obtain ⟨m₂, run₂, reading₂, unread₂⟩ := next m₁ rest reading₁ unread₁
  exact ⟨m₂, by rw [Message.run_bind_ok m run₁, run₂], reading₂, unread₂⟩

theorem Emits.seq {x : Wire Unit} {y : Wire β} {b : β} {front back : List Bool}
    (first : Emits x () front) (next : Emits y b back) : Emits (x >>= fun _ => y) b (front ++ back) :=
  first.bind next

theorem emits_forM (l : List α) (w : α → Wire PUnit) (bits : α → List Bool)
    (each : ∀ a ∈ l, Emits (w a) () (bits a)) : Emits (l.forM w) () (l.flatMap bits) := by
  induction l with
  | nil => exact emits_pure ()
  | cons a rest ih =>
    rw [List.flatMap_cons]
    exact (each a (List.mem_cons_self ..)).bind (ih fun b mem => each b (List.mem_cons_of_mem _ mem))

theorem Parses.map {r : Wire α} {bits : List Bool} {a : α} (parses : Parses r bits a)
    (f : α → β) : Parses (r >>= fun x => pure (f x)) bits (f a) :=
  List.append_nil bits ▸ parses.bind (parses_pure (f a))

theorem Emits.of_eq {w : Wire α} {a : α} {bits bits' : List Bool} (emits : Emits w a bits)
    (same : bits = bits') : Emits w a bits' :=
  same ▸ emits

theorem Parses.of_eq {r : Wire α} {a a' : α} {bits bits' : List Bool} (parses : Parses r bits a)
    (same : bits = bits') (value : a = a') : Parses r bits' a' :=
  same ▸ value ▸ parses

end Compose

section Fields

theorem packedWidth_valid {w : UInt32} (positive : 0 < w.toNat) (within : w.toNat ≤ 64) :
    ¬ (w = 0 ∨ w > 64) := by
  intro invalid
  rcases invalid with zero | wide
  · subst zero
    simp at positive
  · exact absurd (UInt32.lt_iff_toNat_lt.mp wide) (by simp; omega)

theorem upperChunk_toNat {w : UInt32} (wide : ¬ w ≤ 32) : 32 < w.toNat ∧ (w - 32).toNat = w.toNat - 32 := by
  have above : 32 < w.toNat := by
    have := fun h => wide (UInt32.le_iff_toNat_le.mpr h)
    simp at this
    omega
  exact ⟨above, UInt32.toNat_sub_of_le _ _ (UInt32.le_iff_toNat_le.mpr (by simp; omega))⟩

/-- A bit-packed writer appends the low `w` bits of the data, for every width from 1 to 64. -/
theorem emits_packBits (data : UInt64) (w : UInt32) (positive : 0 < w.toNat) (within : w.toNat ≤ 64) :
    Emits (packBits data w) () (Bits.ofNat w.toNat data.toNat) := by
  intro m writing
  have valid := packedWidth_valid positive within
  by_cases narrow : w ≤ 32
  · have narrow' : w.toNat ≤ 32 := UInt32.le_iff_toNat_le.mp narrow
    obtain ⟨m', run', writing', written'⟩ := m.run_pushChunk data w writing positive narrow'
    refine ⟨m', ?_, writing', written'⟩
    simp only [packBits, valid, if_false, narrow, if_true]
    exact run'
  · -- two chunks: the low 32 bits, then the rest above them
    obtain ⟨wide, high⟩ := upperChunk_toNat narrow
    have shifted : (data >>> 32).toNat = data.toNat / 2 ^ 32 := by
      rw [UInt64.toNat_shiftRight, Nat.shiftRight_eq_div_pow]
      rfl
    obtain ⟨m₁, run₁, writing₁, written₁⟩ := m.run_pushChunk data 32 writing (by decide) (by decide)
    obtain ⟨m₂, run₂, writing₂, written₂⟩ :=
      m₁.run_pushChunk (data >>> 32) (w - 32) writing₁ (by omega) (by omega)
    refine ⟨m₂, ?_, writing₂, ?_⟩
    · simp only [packBits, valid, if_false, narrow, Message.run_bind]
      rw [run₁]
      exact run₂
    · have low : (32 : UInt32).toNat = 32 := rfl
      rw [written₂, written₁, high, shifted, low, List.append_assoc, ← Bits.ofNat_add]
      congr 2
      omega

/-- A bit-packed reader takes `w` bits as a number, for every width from 1 to 64. -/
theorem parses_unpackBits (w : UInt32) (positive : 0 < w.toNat) (within : w.toNat ≤ 64)
    (front : List Bool) (width : front.length = w.toNat) :
    Parses (unpackBits w) front (UInt64.ofNat (Bits.toNat front)) := by
  intro m rest reading input
  have valid := packedWidth_valid positive within
  have bounded : Bits.toNat front < 2 ^ 64 :=
    Nat.lt_of_lt_of_le (Bits.toNat_lt front) (Nat.pow_le_pow_right (by decide) (by omega))
  by_cases narrow : w ≤ 32
  · have narrow' : w.toNat ≤ 32 := UInt32.le_iff_toNat_le.mp narrow
    obtain ⟨m', v, run', reading', unread', value⟩ :=
      m.run_takeChunk w reading narrow' front rest input width
    refine ⟨m', ?_, reading', unread'⟩
    have same : v = UInt64.ofNat (Bits.toNat front) := by
      apply UInt64.toNat_inj.mp
      rw [value, UInt64.toNat_ofNat_of_lt' bounded]
    simp only [unpackBits, valid, if_false, narrow, if_true]
    rw [run', same]
  · -- two chunks: the low 32 bits, then the rest above them
    obtain ⟨wide, high⟩ := upperChunk_toNat narrow
    obtain ⟨m₁, low, run₁, reading₁, unread₁, value₁⟩ :=
      m.run_takeChunk 32 reading (by decide) (front.take 32) (front.drop 32 ++ rest)
        (by rw [input, ← List.append_assoc, List.take_append_drop]) (by simp; omega)
    obtain ⟨m₂, up, run₂, reading₂, unread₂, value₂⟩ :=
      m₁.run_takeChunk (w - 32) reading₁ (by omega) (front.drop 32) rest unread₁ (by simp; omega)
    refine ⟨m₂, ?_, reading₂, unread₂⟩
    have lowSmall : low.toNat < 2 ^ 32 := by
      rw [value₁]
      exact Nat.lt_of_lt_of_le (Bits.toNat_lt _)
        (Nat.pow_le_pow_right (by decide) (by simp only [List.length_take]; omega))
    have upSmall : up.toNat < 2 ^ 32 := by
      rw [value₂]
      exact Nat.lt_of_lt_of_le (Bits.toNat_lt _) (Nat.pow_le_pow_right (by decide) (by simp; omega))
    have joined : (low ||| up <<< 32).toNat = Bits.toNat front := by
      have noWrap : up.toNat * 2 ^ 32 < 2 ^ 64 := by
        calc up.toNat * 2 ^ 32 < 2 ^ 32 * 2 ^ 32 := Nat.mul_lt_mul_of_pos_right upSmall (by decide)
          _ = 2 ^ 64 := by decide
      rw [UInt64.toNat_or, UInt64.toNat_shiftLeft, Nat.shiftLeft_eq]
      change low.toNat ||| up.toNat * 2 ^ (32 % 64) % 2 ^ 64 = _
      rw [Nat.mod_eq_of_lt noWrap, Nat.or_comm, Nat.mul_comm, ← Nat.two_pow_add_eq_or_of_lt lowSmall,
        value₁, value₂, ← List.take_append_drop 32 front, Bits.toNat_append,
        List.take_append_drop, List.length_take, Nat.min_eq_left (by omega)]
      omega
    have same : low ||| up <<< 32 = UInt64.ofNat (Bits.toNat front) := by
      apply UInt64.toNat_inj.mp
      rw [joined, UInt64.toNat_ofNat_of_lt' bounded]
    simp only [unpackBits, valid, if_false, narrow, Message.run_bind, Message.run_pure]
    rw [run₁]
    simp only [run₂]
    rw [same]

/-- The signed widths that the message functions can move: from 1 to 64 bits. -/
def ValidWidth (bits : Int32) : Prop :=
  0 < (widthOf bits).toNat ∧ (widthOf bits).toNat ≤ 64

instance (bits : Int32) : Decidable (ValidWidth bits) :=
  inferInstanceAs (Decidable (_ ∧ _))

theorem emits_writeBits (value : Int64) (bits : Int32) (valid : ValidWidth bits) :
    Emits (writeBits value bits) () (Bits.ofNat (widthOf bits).toNat value.toUInt64.toNat) := by
  intro m writing
  obtain ⟨m', run', writing', written'⟩ :=
    emits_packBits value.toUInt64 (widthOf bits) valid.1 valid.2 m writing
  refine ⟨m', ?_, writing', written'⟩
  simp only [writeBits, encode, Message.run_bind, Message.run_mode, writing.mode]
  exact run'

theorem parses_readBits (bits : Int32) (valid : ValidWidth bits) (front : List Bool)
    (width : front.length = (widthOf bits).toNat) :
    Parses (readBits bits) front (extendSign bits (UInt64.ofNat (Bits.toNat front))) := by
  intro m rest reading input
  obtain ⟨m', run', reading', unread'⟩ :=
    parses_unpackBits (widthOf bits) valid.1 valid.2 front width m rest reading input
  refine ⟨m', ?_, reading', unread'⟩
  simp only [readBits, decode, Message.run_bind, Message.run_mode, reading.mode]
  rw [run']
  rfl

end Fields

section Values

theorem extendSign_of_not_neg {bits : Int32} (nonneg : ¬ bits < 0) (raw : UInt64) :
    extendSign bits raw = raw.toInt64 := by
  simp [extendSign, nonneg]

theorem emits_writeBool (b : Bool) : Emits (writeBool b) () [b] := by
  refine (emits_writeBits _ 1 (by decide)).of_eq ?_
  cases b <;> rfl

theorem parses_readBool (b : Bool) : Parses readBool [b] b := by
  unfold readBool
  refine ((parses_readBits 1 (by decide) [b] rfl).map _).of_eq rfl ?_
  cases b <;> decide

theorem emits_writeByte (b : UInt8) : Emits (writeByte b) () (Bits.ofNat 8 b.toNat) :=
  emits_writeBits _ 8 (by decide)

theorem parses_readByte (b : UInt8) : Parses readByte (Bits.ofNat 8 b.toNat) b := by
  unfold readByte
  refine ((parses_readBits 8 (by decide) _ (Bits.length_ofNat 8 _)).map _).of_eq rfl ?_
  apply UInt8.toNat_inj.mp
  have small : b.toNat < 2 ^ 64 := Nat.lt_trans b.toNat_lt (by decide)
  rw [extendSign_of_not_neg (by decide), UInt64.toUInt64_toInt64, Bits.toNat_ofNat,
    Nat.mod_eq_of_lt b.toNat_lt, UInt64.toNat_toUInt8, UInt64.toNat_ofNat_of_lt' small]
  exact Nat.mod_eq_of_lt b.toNat_lt

theorem toUInt32_ofNat_bits (u : UInt32) :
    (UInt64.ofNat (Bits.toNat (Bits.ofNat 32 u.toNat))).toUInt32 = u := by
  apply UInt32.toNat_inj.mp
  have small : u.toNat < 2 ^ 64 := Nat.lt_trans u.toNat_lt (by decide)
  rw [Bits.toNat_ofNat, Nat.mod_eq_of_lt u.toNat_lt, UInt64.toNat_toUInt32,
    UInt64.toNat_ofNat_of_lt' small]
  exact Nat.mod_eq_of_lt u.toNat_lt

theorem emits_writeLong (v : Int32) : Emits (writeLong v) () (Bits.ofNat 32 v.toUInt32.toNat) :=
  emits_writeBits _ 32 (by decide)

theorem parses_readLong (v : Int32) : Parses readLong (Bits.ofNat 32 v.toUInt32.toNat) v := by
  unfold readLong
  refine ((parses_readBits 32 (by decide) _ (Bits.length_ofNat 32 _)).map _).of_eq rfl ?_
  rw [extendSign_of_not_neg (by decide), UInt64.toUInt64_toInt64, toUInt32_ofNat_bits]
  rfl

theorem emits_writeFloat (x : Single) : Emits (writeFloat x) () (Bits.ofNat 32 x.bits.toNat) :=
  emits_writeBits _ 32 (by decide)

theorem parses_readFloat (x : Single) : Parses readFloat (Bits.ofNat 32 x.bits.toNat) x := by
  unfold readFloat
  refine ((parses_readBits 32 (by decide) _ (Bits.length_ofNat 32 _)).map _).of_eq rfl ?_
  rw [extendSign_of_not_neg (by decide), UInt64.toUInt64_toInt64, toUInt32_ofNat_bits]

theorem emits_writeData (bytes : List UInt8) : Emits (writeData bytes) () (Bits.ofBytes bytes) := by
  induction bytes with
  | nil => exact emits_pure ()
  | cons b rest ih => exact (emits_writeByte b).bind ih

theorem parses_readData (bytes : List UInt8) :
    Parses (readData bytes.length) (Bits.ofBytes bytes) bytes := by
  induction bytes with
  | nil => exact parses_pure []
  | cons b rest ih => exact (parses_readByte b).bind (ih.map (b :: ·))

theorem unsigned_roundTrip (w : UInt64) (bits : Int32) (valid : ValidWidth bits) (nonneg : ¬ bits < 0)
    (fits : w.toNat < 2 ^ (widthOf bits).toNat) :
    Emits (writeBits w.toInt64 bits) () (Bits.ofNat (widthOf bits).toNat w.toNat) ∧
      Parses (readBits bits) (Bits.ofNat (widthOf bits).toNat w.toNat) w.toInt64 := by
  refine ⟨(emits_writeBits w.toInt64 bits valid).of_eq (by rw [UInt64.toUInt64_toInt64]), ?_⟩
  refine (parses_readBits bits valid _ (Bits.length_ofNat _ _)).of_eq rfl ?_
  rw [extendSign_of_not_neg nonneg, Bits.toNat_ofNat, Nat.mod_eq_of_lt fits, UInt64.ofNat_toNat]

/-- The integer that a field of `bits` bits holds of `v`: its low `|bits|` bits, read in two's
complement when `bits` is negative. -/
def fitInt (bits v : Int32) : Int32 :=
  Int32.ofInt (if bits < 0 then v.toInt.bmod (2 ^ (widthOf bits).toNat) else v.toInt % 2 ^ (widthOf bits).toNat)

theorem fitInt_zero (bits : Int32) : fitInt bits 0 = 0 := by
  simp [fitInt]

/-- Sign extension reads a number of `w` bits as it is for a non-negative width, and in two's
complement for a negative one. -/
theorem toInt_extendSign (bits : Int32) (r : Nat) (valid : ValidWidth bits)
    (narrow : (widthOf bits).toNat < 64) (fits : r < 2 ^ (widthOf bits).toNat) :
    (extendSign bits (UInt64.ofNat r)).toInt =
      if bits < 0 then (r : Int).bmod (2 ^ (widthOf bits).toNat) else r := by
  have below : 2 ^ (widthOf bits).toNat ≤ 2 ^ 63 := Nat.pow_le_pow_right (by decide) (by omega)
  have plain : (UInt64.ofNat r).toInt64.toInt = r := by
    rw [UInt64.toInt64_ofNat', Int64.toInt_ofNat_of_lt (by omega)]
  have narrowWord : widthOf bits < 64 := UInt32.lt_iff_toNat_lt.mpr (by simpa using narrow)
  -- the sign bit weighs half of the field's range
  obtain ⟨half, halfDef⟩ : ∃ h, 2 ^ ((widthOf bits).toNat - 1) = h := ⟨_, rfl⟩
  have double : 2 ^ (widthOf bits).toNat = 2 * half := by
    rw [← halfDef, ← Nat.pow_succ']
    congr 1
    have := valid.1
    omega
  have within : (r : Int) % ((2 ^ (widthOf bits).toNat : Nat) : Int) = r :=
    Int.emod_eq_of_lt (by omega) (by exact_mod_cast fits)
  unfold extendSign
  by_cases negative : bits < 0
  · rw [if_pos negative, Int.bmod_def, within, double]
    push_cast
    by_cases high : half ≤ r
    · rw [if_pos ⟨negative, narrowWord, (signBit_ne_zero_iff r _ valid.1 narrow fits).mpr (halfDef ▸ high)⟩]
      show (UInt64.toBitVec _).toInt = _
      rw [BitVec.toInt_eq_toNat_bmod, UInt64.toNat_toBitVec, UInt64.toUInt64_toInt64,
        toNat_or_not_lowMask r _ narrow fits, double, Int.bmod_def]
      split <;> split <;> omega
    · rw [if_neg (fun set => high (halfDef ▸ (signBit_ne_zero_iff r _ valid.1 narrow fits).mp set.2.2)),
        plain]
      split <;> omega
  · rw [if_neg (fun set => negative set.1), if_neg negative, plain]

theorem toInt32_extendSign_low (bits : Int32) (valid : ValidWidth bits)
    (narrow : (widthOf bits).toNat ≤ 32) (v : Int32) :
    (extendSign bits (UInt64.ofNat (v.toInt64.toUInt64.toNat % 2 ^ (widthOf bits).toNat))).toInt32 =
      fitInt bits v := by
  -- the written word is the value modulo 2 ^ 64, so its low bits are the value's low bits
  have word : (v.toInt64.toUInt64.toNat : Int) = v.toInt % ((2 ^ 64 : Nat) : Int) := by
    have signed := BitVec.toInt_eq_toNat_bmod v.toInt64.toBitVec
    rw [Int64.toInt_toBitVec, Int32.toInt_toInt64] at signed
    rw [signed, Int.bmod_emod]
    exact (Int.emod_eq_of_lt (by omega) (by exact_mod_cast v.toInt64.toBitVec.isLt)).symm
  have low : ((v.toInt64.toUInt64.toNat % 2 ^ (widthOf bits).toNat : Nat) : Int) =
      v.toInt % ((2 ^ (widthOf bits).toNat : Nat) : Int) := by
    rw [Int.natCast_emod, word,
      Int.emod_emod_of_dvd _ (Int.natCast_dvd_natCast.mpr (pow_dvd_pow 2 (by omega)))]
  apply Int32.toInt_inj.mp
  rw [Int64.toInt_toInt32, toInt_extendSign bits _ valid (by omega) (Nat.mod_lt _ (Nat.two_pow_pos _)),
    fitInt, Int32.toInt_ofInt, low]
  split
  · rw [Int.emod_bmod]
  · push_cast
    rfl

end Values

section Flush

theorem run_flushBits (m : Message) (sink : m.Sink) (pending : m.packer.count.toNat < 8) :
    ∃ m' : Message, m.run flushBits = (.ok (), m') ∧ m'.Sink ∧ m'.packer = {} ∧ m'.mode = m.mode ∧
      m'.written = m.written ++ List.replicate ((8 - m.packer.count.toNat) % 8) false := by
  by_cases waiting : m.packer.count > 0
  · -- the partial byte goes out with zeros above its bits
    have positive : 0 < m.packer.count.toNat := UInt32.lt_iff_toNat_lt.mp waiting
    have room : m.stream.canWrite 1 = true := by simp [ByteStream.canWrite, sink.growing]
    have appended := m.stream.putAll_singleton_of_atEnd m.packer.acc.toUInt8 sink.atEnd
    have byte : Bits.ofNat 8 m.packer.acc.toUInt8.toNat =
        m.packer.bits ++ List.replicate ((8 - m.packer.count.toNat) % 8) false := by
      rw [UInt64.toNat_toUInt8, Bits.ofNat_mod_two_pow 8 8 _ (Nat.le_refl 8),
        Bits.ofNat_of_lt _ 8 _ sink.clean (by omega), Nat.mod_eq_of_lt (by omega)]
      rfl
    refine ⟨⟨m.stream.putAll [m.packer.acc.toUInt8], {}, m.mode⟩, ?_, ?_, rfl, rfl, ?_⟩
    · simp only [flushBits, Message.run_bind, Message.run_pendingBits, if_pos waiting,
        Message.run_emitByte_eq, if_pos room, Message.run_modify]
    · refine ⟨?_, ?_, BitPacker.clean_empty⟩ <;> simp [appended, sink.growing, sink.atEnd]
    · simp only [Message.written, appended, ByteArray.data_push, Array.toList_push, Bits.ofBytes_append,
        Bits.ofBytes_cons, Bits.ofBytes_nil, List.append_nil, byte, BitPacker.bits_empty,
        List.append_assoc]
  · -- nothing waits: the bytes are the bits written
    have none : m.packer.count.toNat = 0 := by
      have := fun h => waiting (UInt32.lt_iff_toNat_lt.mpr h)
      simp at this
      omega
    refine ⟨⟨m.stream, {}, m.mode⟩, ?_, ⟨sink.growing, sink.atEnd, BitPacker.clean_empty⟩, rfl, rfl, ?_⟩
    · simp only [flushBits, Message.run_bind, Message.run_pendingBits, if_neg waiting, Message.run_modify]
    · simp [Message.written, BitPacker.bits, none]

theorem run_flush (m : Message) (writing : m.Writing) :
    ∃ (m' : Message) (pad : Nat), m.run flush = (.ok (), m') ∧ pad < 8 ∧
      Bits.ofBytes m'.stream.bytes.data.toList = m.written ++ List.replicate pad false := by
  obtain ⟨m', run', -, empty, -, written'⟩ := run_flushBits m writing.toSink writing.pending
  refine ⟨m', (8 - m.packer.count.toNat) % 8, ?_, Nat.mod_lt _ (by decide), ?_⟩
  · simp only [flush, Message.run_bind, Message.run_mode, writing.mode]
    exact run'
  · rw [← written', Message.written, empty, BitPacker.bits_empty, List.append_nil]

theorem ofBytes_reading (bytes : List UInt8) :
    (Message.ofBytes bytes).Reading ∧ (Message.ofBytes bytes).unread = Bits.ofBytes bytes := by
  refine ⟨⟨rfl, BitPacker.clean_empty, Nat.zero_lt_succ 7⟩, ?_⟩
  simp [Message.unread, Message.ofBytes, Message.onStream, ByteStream.growing]

/-- A writer's flushed bytes are the bits it emitted, then fewer than eight zeros that complete the
last byte. -/
theorem encode_bits {α : Type} {w : Wire α} {a : α} {bits : List Bool} (emits : Emits w a bits) :
    (Message.encode w).1 = .ok a ∧
      ∃ pad < 8, Bits.ofBytes (Message.encode w).2 = bits ++ List.replicate pad false := by
  have start : (Message.onStream ByteStream.growing).Writing :=
    ⟨⟨rfl, rfl, BitPacker.clean_empty⟩, rfl, by decide⟩
  obtain ⟨m₁, run₁, writing₁, written₁⟩ := emits _ start
  obtain ⟨m₂, pad, run₂, short, bytes₂⟩ := run_flush m₁ writing₁
  have ran : (Message.onStream ByteStream.growing).run (do let a ← w; flush; pure a) =
      (.ok a, m₂) := by
    rw [Message.run_bind_ok _ run₁, Message.run_bind_ok _ run₂, Message.run_pure]
  have empty : (Message.onStream ByteStream.growing).written = [] := by
    simp [Message.written, Message.onStream, ByteStream.growing]
  have encoded : Message.encode w = (.ok a, m₂.stream.bytes.toList) := by
    simp only [Message.encode, ran]
  rw [encoded]
  refine ⟨rfl, pad, short, ?_⟩
  rw [ByteArray.toList_eq_data_toList, bytes₂, written₁, empty, List.nil_append]

theorem encode_unread {α : Type} {w : Wire α} {a : α} {bits : List Bool} (emits : Emits w a bits) :
    (Message.encode w).1 = .ok a ∧ (Message.ofBytes (Message.encode w).2).Reading ∧
      ∃ pad, (Message.ofBytes (Message.encode w).2).unread = bits ++ List.replicate pad false := by
  obtain ⟨wrote, pad, -, bytes⟩ := encode_bits emits
  obtain ⟨reading, unread⟩ := ofBytes_reading (Message.encode w).2
  exact ⟨wrote, reading, pad, unread.trans bytes⟩

/-- What a writer emits, once flushed, reads back through a reader that parses those bits. -/
theorem parses_encode {α β : Type} {w : Wire α} {r : Wire β} {a : α} {b : β} {bits : List Bool}
    (emits : Emits w a bits) (parses : Parses r bits b) :
    (Message.encode w).1 = .ok a ∧ ((Message.ofBytes (Message.encode w).2).run r).1 = .ok b := by
  obtain ⟨wrote, reading, pad, unread⟩ := encode_unread emits
  obtain ⟨m, run, -, -⟩ := parses _ _ reading unread
  exact ⟨wrote, by rw [run]⟩

end Flush

end Wire

end Netcode
