import Netcode.Proofs.Wire.Bits

set_option autoImplicit false

namespace Netcode

theorem ByteArray.toList_eq_data_toList (bytes : ByteArray) : bytes.toList = bytes.data.toList := by
  have loop : ∀ i r, ByteArray.toList.loop bytes i r = r.reverse ++ bytes.data.toList.drop i := by
    intro i r
    induction i, r using ByteArray.toList.loop.induct bytes with
    | case1 i r inside ih =>
      have index : i < bytes.data.toList.length := by simpa using inside
      have byte : bytes.get! i = bytes.data.toList[i] := by
        simp only [ByteArray.get!, Array.getElem_toList]
        exact getElem!_pos bytes.data i (by simpa using inside)
      rw [ByteArray.toList.loop, if_pos inside, ih, List.drop_eq_getElem_cons index, byte]
      simp
    | case2 i r outside =>
      rw [ByteArray.toList.loop, if_neg outside, List.drop_eq_nil_of_le (by simpa using outside)]
      simp
  rw [ByteArray.toList, loop]
  simp

theorem ByteStream.putAll_singleton_of_atEnd (s : ByteStream) (b : UInt8) (atEnd : s.pos = s.bytes.size) :
    s.putAll [b] = ⟨s.bytes.push b, s.pos + 1, s.capacity⟩ := by
  simp [ByteStream.putAll, ByteStream.putByte, atEnd]

namespace Message

section Run

variable (m : Message)

@[simp] theorem run_pure {α : Type} (a : α) : m.run (pure a : Wire α) = (.ok a, m) := rfl

@[simp] theorem run_fail {α : Type} (e : NetError) : m.run (Wire.fail e : Wire α) = (.error e, m) :=
  rfl

@[simp] theorem run_modify (f : Message → Message) : m.run (modify f : Wire Unit) = (.ok (), f m) :=
  rfl

@[simp] theorem run_modifyGet {α : Type} (g : Message → α × Message) :
    m.run (modifyGet g : Wire α) = (.ok (g m).1, (g m).2) := rfl

@[simp] theorem run_mk_modifyGet {α : Type} (g : Message → Except NetError α × Message) :
    m.run (ExceptT.mk (modifyGet g)) = g m := rfl

@[simp] theorem run_pendingBits : m.run Wire.pendingBits = (.ok m.packer.count, m) := rfl

@[simp] theorem run_mode : m.run Wire.mode = (.ok m.mode, m) := rfl

theorem run_bind {α β : Type} (x : Wire α) (f : α → Wire β) :
    m.run (x >>= f) = match m.run x with
      | (.ok a, m') => m'.run (f a)
      | (.error e, m') => (.error e, m') := by
  simp only [Message.run, bind, ExceptT.bind, ExceptT.run, ExceptT.mk, StateT.bind, StateT.run]
  rcases x m with ⟨_ | _, _⟩ <;> rfl

theorem run_bind_ok {α β : Type} {x : Wire α} {a : α} {m' : Message} (first : m.run x = (.ok a, m'))
    (f : α → Wire β) : m.run (x >>= f) = m'.run (f a) := by
  rw [run_bind, first]

theorem run_bind_error {α β : Type} {x : Wire α} {e : NetError} {m' : Message}
    (first : m.run x = (.error e, m')) (f : α → Wire β) : m.run (x >>= f) = (.error e, m') := by
  rw [run_bind, first]

end Run

/-- The bits a bit-packed writer has produced: those of the bytes in its stream, then those
waiting in its accumulator. -/
def written (m : Message) : List Bool :=
  Bits.ofBytes m.stream.bytes.data.toList ++ m.packer.bits

/-- The bits a bit-packed reader has yet to use: those waiting in its accumulator, then those of
the bytes after its cursor. -/
def unread (m : Message) : List Bool :=
  m.packer.bits ++ Bits.ofBytes (m.stream.bytes.data.toList.drop m.stream.pos)

/-- A writer appending to a growing stream: the cursor is at the end and the accumulator is
clean. -/
structure Sink (m : Message) : Prop where
  growing : m.stream.capacity = none
  atEnd : m.stream.pos = m.stream.bytes.size
  clean : m.packer.Clean

/-- A bit-packed writer between two values: less than a byte waits in its accumulator. -/
structure Writing (m : Message) : Prop extends Sink m where
  mode : m.mode = .bitPacked
  pending : m.packer.count.toNat < 8

structure Reading (m : Message) : Prop where
  mode : m.mode = .bitPacked
  clean : m.packer.Clean
  pending : m.packer.count.toNat < 8

section Writer

variable (m : Message)

theorem run_emitByte_eq : m.run Wire.emitByte =
    if m.stream.canWrite 1 then
      (.ok (), ⟨m.stream.putAll [m.packer.acc.toUInt8], m.packer.shiftByte, m.mode⟩)
    else (.error (.streamOverflow .writing), m) := by
  cases m
  rfl

theorem run_emitByte (sink : m.Sink) (full : 8 ≤ m.packer.count.toNat) :
    ∃ m', m.run Wire.emitByte = (.ok (), m') ∧ m'.Sink ∧ m'.written = m.written ∧
      m'.mode = m.mode ∧ m'.packer.count.toNat = m.packer.count.toNat - 8 := by
  have room : m.stream.canWrite 1 = true := by simp [ByteStream.canWrite, sink.growing]
  have appended := m.stream.putAll_singleton_of_atEnd m.packer.acc.toUInt8 sink.atEnd
  refine ⟨⟨m.stream.putAll [m.packer.acc.toUInt8], m.packer.shiftByte, m.mode⟩,
    by rw [run_emitByte_eq, if_pos room], ?_, ?_, rfl, ?_⟩
  · refine ⟨?_, ?_, m.packer.shiftByte_clean sink.clean full⟩ <;>
      simp [appended, sink.growing, sink.atEnd]
  · simp only [written, appended, ByteArray.data_push, Array.toList_push, Bits.ofBytes_append,
      Bits.ofBytes_cons, Bits.ofBytes_nil, List.append_nil, List.append_assoc]
    rw [← m.packer.shiftByte_bits full]
  · exact m.packer.shiftByte_count_toNat full

theorem run_emitBytes (k : Nat) (sink : m.Sink) (full : 8 * k ≤ m.packer.count.toNat) :
    ∃ m', m.run (Wire.emitBytes k) = (.ok (), m') ∧ m'.Sink ∧ m'.written = m.written ∧
      m'.mode = m.mode ∧ m'.packer.count.toNat = m.packer.count.toNat - 8 * k := by
  induction k generalizing m with
  | zero => exact ⟨m, rfl, sink, rfl, rfl, rfl⟩
  | succ k ih =>
    obtain ⟨m₁, first, sink₁, written₁, mode₁, count₁⟩ := run_emitByte m sink (by omega)
    obtain ⟨m₂, rest, sink₂, written₂, mode₂, count₂⟩ := ih m₁ sink₁ (by omega)
    refine ⟨m₂, ?_, sink₂, written₂.trans written₁, mode₂.trans mode₁, by omega⟩
    rw [Wire.emitBytes, run_bind_ok m first, rest]

/-- Pushing a chunk of `n ≤ 32` bits appends them to what the writer has written. -/
theorem run_pushChunk (chunk : UInt64) (n : UInt32) (writing : m.Writing) (positive : 0 < n.toNat)
    (narrow : n.toNat ≤ 32) :
    ∃ m', m.run (Wire.pushChunk chunk n) = (.ok (), m') ∧ m'.Writing ∧
      m'.written = m.written ++ Bits.ofNat n.toNat chunk.toNat := by
  have fits : m.packer.count.toNat + n.toNat ≤ 64 := by have := writing.pending; omega
  let pushed : Message := { m with packer := m.packer.push chunk n }
  have count : pushed.packer.count.toNat = m.packer.count.toNat + n.toNat :=
    m.packer.push_count_toNat chunk n fits
  have sink : pushed.Sink :=
    ⟨writing.growing, writing.atEnd, m.packer.push_clean chunk n writing.clean fits positive⟩
  obtain ⟨m', emitted, sink', written', mode', count'⟩ :=
    run_emitBytes pushed (pushed.packer.count.toNat / 8) sink (Nat.mul_div_le _ _)
  refine ⟨m', ?_, ⟨sink', mode'.trans writing.mode, by omega⟩, ?_⟩
  · simp only [Wire.pushChunk, run_bind, run_modify, run_pendingBits]
    exact emitted
  · rw [written', written, written, m.packer.push_bits chunk n writing.clean fits positive,
      List.append_assoc]

end Writer

section Reader

variable (m : Message)

theorem run_absorbByte_eq : m.run Wire.absorbByte =
    if m.stream.canRead 1 then
      (.ok (), ⟨{ m.stream with pos := m.stream.pos + 1 }, m.packer.absorb m.stream.peekByte, m.mode⟩)
    else (.error (.streamOverflow .reading), m) := by
  cases m
  rfl

theorem run_absorbByte (left : m.stream.pos + 1 ≤ m.stream.bytes.size) (clean : m.packer.Clean)
    (fits : m.packer.count.toNat + 8 ≤ 64) :
    ∃ m', m.run Wire.absorbByte = (.ok (), m') ∧ m'.unread = m.unread ∧ m'.mode = m.mode ∧
      m'.packer.Clean ∧ m'.packer.count.toNat = m.packer.count.toNat + 8 ∧
      m'.stream.bytes = m.stream.bytes ∧ m'.stream.pos = m.stream.pos + 1 := by
  have inside : m.stream.canRead 1 = true := by
    exact decide_eq_true left
  have index : m.stream.pos < m.stream.bytes.data.toList.length := by simp; omega
  have peek : m.stream.peekByte = m.stream.bytes.data.toList[m.stream.pos] := by
    simp [ByteStream.peekByte, show m.stream.pos < m.stream.bytes.size by omega]
    rfl
  refine ⟨⟨{ m.stream with pos := m.stream.pos + 1 }, m.packer.absorb m.stream.peekByte, m.mode⟩,
    by rw [run_absorbByte_eq, if_pos inside], ?_, rfl, ?_, ?_, rfl, rfl⟩
  · simp only [unread, BitPacker.absorb_eq_push, peek]
    rw [m.packer.push_bits _ 8 clean fits (by decide), List.drop_eq_getElem_cons index,
      Bits.ofBytes_cons, UInt8.toNat_toUInt64]
    simp only [List.append_assoc]
    rfl
  · rw [BitPacker.absorb_eq_push]
    exact m.packer.push_clean _ 8 clean fits (by decide)
  · rw [BitPacker.absorb_eq_push]
    exact m.packer.push_count_toNat _ 8 fits

theorem run_absorbBytes (k : Nat) (left : m.stream.pos + k ≤ m.stream.bytes.size)
    (clean : m.packer.Clean) (fits : m.packer.count.toNat + 8 * k ≤ 64) :
    ∃ m', m.run (Wire.absorbBytes k) = (.ok (), m') ∧ m'.unread = m.unread ∧ m'.mode = m.mode ∧
      m'.packer.Clean ∧ m'.packer.count.toNat = m.packer.count.toNat + 8 * k := by
  induction k generalizing m with
  | zero => exact ⟨m, rfl, rfl, rfl, clean, rfl⟩
  | succ k ih =>
    obtain ⟨m₁, first, unread₁, mode₁, clean₁, count₁, bytes₁, pos₁⟩ :=
      run_absorbByte m (by omega) clean (by omega)
    obtain ⟨m₂, rest, unread₂, mode₂, clean₂, count₂⟩ :=
      ih m₁ (by rw [bytes₁, pos₁]; omega) clean₁ (by omega)
    refine ⟨m₂, ?_, unread₂.trans unread₁, mode₂.trans mode₁, clean₂, by omega⟩
    rw [Wire.absorbBytes, run_bind_ok m first, rest]

theorem length_unread : m.unread.length = m.packer.count.toNat + 8 * (m.stream.bytes.size - m.stream.pos) := by
  simp [unread, BitPacker.bits]

theorem run_take (n : UInt32) (clean : m.packer.Clean) (held : n.toNat ≤ m.packer.count.toNat)
    (narrow : n.toNat < 64) :
    ∃ (m' : Message) (v : UInt64), m.run (modifyGet fun m : Message =>
        let (value, p) := m.packer.take n
        (value, { m with packer := p }) : Wire UInt64) = (.ok v, m') ∧
      m.unread = Bits.ofNat n.toNat v.toNat ++ m'.unread ∧ v.toNat < 2 ^ n.toNat ∧
      m'.mode = m.mode ∧ m'.packer.Clean ∧ m'.packer.count.toNat = m.packer.count.toNat - n.toNat := by
  obtain ⟨value, split⟩ := m.packer.take_bits n held narrow
  refine ⟨_, _, run_modifyGet m _, ?_, ?_, rfl, m.packer.take_clean n clean held narrow, ?_⟩
  · simp only [unread, split, List.append_assoc]
  · simp only [value]
    exact Nat.mod_lt _ (Nat.two_pow_pos _)
  · simp only [BitPacker.take]
    exact UInt32.toNat_sub_of_le _ _ (UInt32.le_iff_toNat_le.mpr held)

/-- Taking a chunk of `n ≤ 32` bits off the front of what the reader has left. -/
theorem run_takeChunk (n : UInt32) (reading : m.Reading) (narrow : n.toNat ≤ 32)
    (front rest : List Bool) (input : m.unread = front ++ rest) (width : front.length = n.toNat) :
    ∃ (m' : Message) (v : UInt64), m.run (Wire.takeChunk n) = (.ok v, m') ∧ m'.Reading ∧ m'.unread = rest ∧
      v.toNat = Bits.toNat front := by
  have enough := congrArg List.length input
  rw [length_unread, List.length_append, width] at enough
  have pending := reading.pending
  -- once the accumulator holds the chunk's bits, taking them leaves `rest`
  have finish : ∀ m₁ : Message, m₁.unread = m.unread → m₁.mode = m.mode → m₁.packer.Clean →
      n.toNat ≤ m₁.packer.count.toNat → m₁.packer.count.toNat < n.toNat + 8 →
      ∃ (m' : Message) (v : UInt64), m₁.run (modifyGet fun m : Message =>
          let (value, p) := m.packer.take n
          (value, { m with packer := p }) : Wire UInt64) = (.ok v, m') ∧
        m'.Reading ∧ m'.unread = rest ∧ v.toNat = Bits.toNat front := by
    intro m₁ unread₁ mode₁ clean₁ held bound
    obtain ⟨m', v, run₂, split, small, mode₂, clean₂, count₂⟩ :=
      run_take m₁ n clean₁ held (by omega)
    have parts := List.append_inj (split.symm.trans (unread₁.trans input))
      (by rw [Bits.length_ofNat, width])
    refine ⟨m', v, run₂, ⟨mode₂.trans (mode₁.trans reading.mode), clean₂, by omega⟩, parts.2, ?_⟩
    rw [← parts.1, Bits.toNat_ofNat, Nat.mod_eq_of_lt small]
  by_cases short : m.packer.count < n
  · -- the accumulator lacks bits: read in the bytes that hold them first
    have gap : (n - m.packer.count).toNat = n.toNat - m.packer.count.toNat :=
      UInt32.toNat_sub_of_le _ _ (UInt32.le_of_lt short)
    have below : m.packer.count.toNat < n.toNat := UInt32.lt_iff_toNat_lt.mp short
    obtain ⟨m₁, run₁, unread₁, mode₁, clean₁, count₁⟩ :=
      run_absorbBytes m (((n - m.packer.count).toNat + 7) / 8) (by rw [gap]; omega) reading.clean
        (by rw [gap]; omega)
    rw [gap] at count₁
    obtain ⟨m', v, run₂, result⟩ := finish m₁ unread₁ mode₁ clean₁ (by omega) (by omega)
    refine ⟨m', v, ?_, result⟩
    simp only [Wire.takeChunk, run_bind, run_pendingBits, if_pos short]
    rw [run₁]
    exact run₂
  · have above : n.toNat ≤ m.packer.count.toNat :=
      Nat.le_of_not_lt fun h => short (UInt32.lt_iff_toNat_lt.mpr h)
    obtain ⟨m', v, run₂, result⟩ := finish m rfl rfl reading.clean above (by omega)
    refine ⟨m', v, ?_, result⟩
    simp only [Wire.takeChunk, run_bind, run_pendingBits, if_neg short]
    exact run₂

end Reader

end Message

end Netcode
