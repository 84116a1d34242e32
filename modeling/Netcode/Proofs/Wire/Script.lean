import Mathlib
import Netcode.Proofs.Wire.Values

set_option autoImplicit false

namespace Netcode

namespace Wire

/-- An entry of a message: a value with the arguments its read needs, or a switch of layout. -/
inductive Entry where
  | bits (value : Int64) (width : Int32)
  | bool (b : Bool)
  | byte (b : UInt8)
  | short (v : Int16)
  | long (v : Int32)
  | float (x : Single)
  | data (bytes : List UInt8)
  | rawString (bytes : List UInt8) (max : Nat)
  | text (s : String)
  | deltaKey (key old new : UInt32) (width : Int32)
  | floatCompressed (x : Single)
  | switch (target : CodecMode)
  deriving DecidableEq, Repr

namespace Entry

def write : Entry → Wire Unit
  | .bits v w => writeBits v w
  | .bool b => writeBool b
  | .byte b => writeByte b
  | .short v => writeShort v
  | .long v => writeLong v
  | .float x => writeFloat x
  | .data bytes => writeData bytes
  | .rawString s max => writeRawString s max
  | .text s => writeString s
  | .deltaKey key old new w => writeDeltaKey key old new w
  | .floatCompressed x => writeFloatCompressed x
  | .switch target => setMode target true

/-- The read that takes the entry back. It uses the entry's kind and the arguments a reader is
given, never the value written. -/
def read : Entry → Wire Entry
  | .bits _ w => return .bits (← readBits w) w
  | .bool _ => return .bool (← readBool)
  | .byte _ => return .byte (← readByte)
  | .short _ => return .short (← readShort)
  | .long _ => return .long (← readLong)
  | .float _ => return .float (← readFloat)
  | .data bytes => return .data (← readData bytes.length)
  | .rawString _ max => return .rawString (← readRawString max) max
  | .text _ => return .text (← readString)
  | .deltaKey key old _ w => return .deltaKey key old (← readDeltaKey key old w) w
  | .floatCompressed _ => return .floatCompressed (← readFloatCompressed)
  | .switch target => do setMode target false; return .switch target

/-- What the read gives back: the entry itself, except that a raw field keeps the low `|w|` bits
of its value, sign-extended for a negative width, and a keyed change the new value's low bits. -/
def readBack : Entry → Entry
  | .bits v w => .bits (lowBits w v) w
  | .deltaKey key old new w =>
    .deltaKey key old (if old = new then old else UInt32.ofNat (new.toNat % 2 ^ (widthOf w).toNat)) w
  | e => e

def after (mode : CodecMode) : Entry → CodecMode
  | .switch target => target
  | _ => mode

/-- Whether the layout `mode` carries the entry: booleans, keyed changes and compressed floats only
bit-packed, raw fields of a width it moves, and strings free of zeros under their limit. -/
def Allowed (mode : CodecMode) : Entry → Prop
  | .bits _ w => mode.Carries (widthOf w)
  | .bool _ => mode = .bitPacked
  | .byte _ | .short _ | .long _ | .float _ | .data _ | .switch _ => True
  | .rawString s max => 0 ∉ s ∧ s.length < max
  | .text s => Char.ofNat 0 ∉ s.toList ∧ s.utf8ByteSize < maxStringChars
  | .deltaKey _ _ _ w => mode = .bitPacked ∧ mode.Carries (widthOf w)
  | .floatCompressed _ => mode = .bitPacked

instance (mode : CodecMode) (e : Entry) : Decidable (e.Allowed mode) := by
  cases e <;> unfold Allowed <;> infer_instance

/-- The bits the entry takes when the writer stands `phase` bits past a byte boundary: a switch
completes the partial byte with zeros. -/
def layout (mode : CodecMode) (phase : Nat) : Entry → List Bool
  | .bits v w => Bits.ofNat (widthOf w).toNat v.toUInt64.toNat
  | .bool b => [b]
  | .byte b => Bits.ofNat 8 b.toNat
  | .short v => Bits.ofNat 16 v.toUInt16.toNat
  | .long v => Bits.ofNat 32 v.toUInt32.toNat
  | .float x => Bits.ofNat 32 x.bits.toNat
  | .data bytes => Bits.ofBytes bytes
  | .rawString s _ => Bits.ofBytes (s ++ [0])
  | .text s => Bits.ofBytes (s.toUTF8.toList ++ [0])
  | .deltaKey key old new w => keyedChange key old new w
  | .floatCompressed x => compressedFloat x
  | .switch target => if mode = target then [] else List.replicate ((8 - phase % 8) % 8) false

theorem after_of_ne_switch {e : Entry} (plain : ∀ t, e ≠ .switch t) (mode : CodecMode) :
    e.after mode = mode := by
  cases e <;> simp_all [after]

/-- Every entry but a switch is written and read back in the layout in use, wherever the writer
stands. -/
theorem roundTrip (e : Entry) (mode : CodecMode) (allowed : e.Allowed mode)
    (plain : ∀ t, e ≠ .switch t) (phase : Nat) :
    EmitsIn mode e.write () (e.layout mode phase) ∧ ParsesIn mode e.read (e.layout mode phase) e.readBack := by
  cases e with
  | bits v w =>
    refine ⟨emitsIn_writeBits mode v w allowed, ((parsesIn_readBits mode w allowed _).map _).of_eq rfl ?_⟩
    rw [extendSign_lowBits w ⟨allowed.1, allowed.2.1⟩]
    rfl
  | bool b =>
    cases (allowed : mode = .bitPacked)
    exact ⟨emitsIn_writeBool b, (parsesIn_readBool b).map _⟩
  | byte b => exact ⟨emitsIn_writeByte mode b, (parsesIn_readByte mode b).map _⟩
  | short v => exact ⟨emitsIn_writeShort mode v, (parsesIn_readShort mode v).map _⟩
  | long v => exact ⟨emitsIn_writeLong mode v, (parsesIn_readLong mode v).map _⟩
  | float x => exact ⟨emitsIn_writeFloat mode x, (parsesIn_readFloat mode x).map _⟩
  | data bytes => exact ⟨emitsIn_writeData mode bytes, (parsesIn_readData mode bytes).map _⟩
  | rawString s max =>
    exact ⟨emitsIn_writeRawString mode s max allowed.2,
      (parsesIn_readRawString mode s max allowed.1 (Nat.le_of_lt allowed.2)).map _⟩
  | text s => exact ⟨emitsIn_writeString mode s allowed.2, (parsesIn_readString mode s allowed.1 allowed.2).map _⟩
  | deltaKey key old new w =>
    obtain ⟨packed, carries⟩ := allowed
    cases packed
    exact ⟨emitsIn_writeDeltaKey key old new w carries, (parsesIn_readDeltaKey key old new w carries).map _⟩
  | floatCompressed x =>
    cases (allowed : mode = .bitPacked)
    exact ⟨emitsIn_writeFloatCompressed x, (parsesIn_readFloatCompressed x).map _⟩
  | switch t => exact absurd rfl (plain t)

theorem run_write (e : Entry) (mode : CodecMode) (allowed : e.Allowed mode) (m : Message)
    (writer : m.Writer mode) :
    ∃ m' : Message, m.run e.write = (.ok (), m') ∧ m'.Writer (e.after mode) ∧
      m'.written = m.written ++ e.layout mode (m.written.length % 8) := by
  by_cases switch : ∃ t, e = .switch t
  · obtain ⟨t, rfl⟩ := switch
    by_cases same : mode = t
    · subst same
      exact ⟨m, run_setMode_same m mode writer.layout true, writer, by simp [layout]⟩
    · obtain ⟨m', run', writer', written'⟩ := run_setMode_writer t m writer same
      refine ⟨m', run', writer', ?_⟩
      rw [written', layout, if_neg same, Nat.mod_mod]
  · have plain : ∀ t, e ≠ .switch t := fun t named => switch ⟨t, named⟩
    obtain ⟨m', run', writer', written'⟩ := (roundTrip e mode allowed plain _).1 m writer
    rw [after_of_ne_switch plain mode]
    exact ⟨m', run', writer', written'⟩

/-- One entry read: a reader whose unread bits start with the entry's layout at the writer's
phase takes them and gives the entry back. -/
theorem run_read (e : Entry) (mode : CodecMode) (allowed : e.Allowed mode) (m : Message)
    (reader : m.Reader mode) (phase : Nat) (rest : List Bool)
    (input : m.unread = e.layout mode phase ++ rest) (inPhase : (phase + m.unread.length) % 8 = 0) :
    ∃ m' : Message, m.run e.read = (.ok e.readBack, m') ∧ m'.Reader (e.after mode) ∧
      m'.unread = rest := by
  by_cases switch : ∃ t, e = .switch t
  · obtain ⟨t, rfl⟩ := switch
    by_cases same : mode = t
    · subst same
      have kept : m.unread = rest := by simpa [layout] using input
      refine ⟨m, ?_, reader, kept⟩
      simp only [read, Message.run_bind, run_setMode_same m mode reader.layout false, Message.run_pure]
      rfl
    · -- the pad completes the writer's byte, so what follows it is whole bytes
      have padded : (8 - phase % 8) % 8 < 8 := Nat.mod_lt _ (by decide)
      have whole : rest.length % 8 = 0 := by
        rw [input, List.length_append, layout, if_neg same, List.length_replicate] at inPhase
        omega
      obtain ⟨m', run', reader', unread'⟩ := run_setMode_reader t m reader same _ rest
        (by rw [input, layout, if_neg same]) (by simpa using padded) whole
      refine ⟨m', ?_, reader', unread'⟩
      simp only [read, Message.run_bind, run', Message.run_pure]
      rfl
  · have plain : ∀ t, e ≠ .switch t := fun t named => switch ⟨t, named⟩
    obtain ⟨m', run', reader', unread'⟩ := (roundTrip e mode allowed plain phase).2 m rest reader input
    rw [after_of_ne_switch plain mode]
    exact ⟨m', run', reader', unread'⟩

end Entry

def writeAll (entries : List Entry) : Wire Unit :=
  entries.forM Entry.write

def readAll (entries : List Entry) : Wire (List Entry) :=
  entries.mapM Entry.read

def Allowed : CodecMode → List Entry → Prop
  | _, [] => True
  | mode, e :: rest => e.Allowed mode ∧ Allowed (e.after mode) rest

instance decidableAllowed : (mode : CodecMode) → (entries : List Entry) → Decidable (Allowed mode entries)
  | _, [] => isTrue trivial
  | mode, e :: rest =>
    haveI := decidableAllowed (e.after mode) rest
    inferInstanceAs (Decidable (_ ∧ _))

def finalMode (mode : CodecMode) (entries : List Entry) : CodecMode :=
  entries.foldl Entry.after mode

def layoutAll : CodecMode → Nat → List Entry → List Bool
  | _, _, [] => []
  | mode, phase, e :: rest =>
    e.layout mode phase ++ layoutAll (e.after mode) ((phase + (e.layout mode phase).length) % 8) rest

theorem run_writeAll (entries : List Entry) :
    ∀ (mode : CodecMode) (m : Message), Allowed mode entries → m.Writer mode →
      ∃ m' : Message, m.run (writeAll entries) = (.ok (), m') ∧ m'.Writer (finalMode mode entries) ∧
        m'.written = m.written ++ layoutAll mode (m.written.length % 8) entries := by
  induction entries with
  | nil =>
    intro mode m _ writer
    exact ⟨m, rfl, writer, by simp [layoutAll]⟩
  | cons e rest ih =>
    intro mode m allowed writer
    obtain ⟨m₁, run₁, writer₁, written₁⟩ := e.run_write mode allowed.1 m writer
    obtain ⟨m₂, run₂, writer₂, written₂⟩ := ih (e.after mode) m₁ allowed.2 writer₁
    -- the entry leaves the writer as far past a byte boundary as its layout reaches
    have phase : m₁.written.length % 8 =
        (m.written.length % 8 + (e.layout mode (m.written.length % 8)).length) % 8 := by
      rw [written₁, List.length_append]
      omega
    refine ⟨m₂, ?_, writer₂, ?_⟩
    · simp only [writeAll, List.forM]
      rw [Message.run_bind_ok m run₁]
      exact run₂
    · rw [written₂, phase, written₁, layoutAll, List.append_assoc]

/-- A reader carried over the entries takes their layouts and gives each entry back, as long as
it stands where the writer stood relative to byte boundaries. -/
theorem run_readAll (entries : List Entry) :
    ∀ (mode : CodecMode) (phase : Nat) (m : Message) (rest : List Bool), Allowed mode entries →
      m.Reader mode → m.unread = layoutAll mode phase entries ++ rest →
      (phase + m.unread.length) % 8 = 0 →
      ∃ m' : Message, m.run (readAll entries) = (.ok (entries.map Entry.readBack), m') ∧
        m'.Reader (finalMode mode entries) ∧ m'.unread = rest := by
  induction entries with
  | nil =>
    intro mode phase m rest _ reader input _
    exact ⟨m, rfl, reader, by simpa [layoutAll] using input⟩
  | cons e more ih =>
    intro mode phase m rest allowed reader input inPhase
    rw [layoutAll, List.append_assoc] at input
    obtain ⟨m₁, run₁, reader₁, unread₁⟩ := e.run_read mode allowed.1 m reader phase _ input inPhase
    have lengths := congrArg List.length input
    rw [List.length_append, ← unread₁] at lengths
    obtain ⟨m₂, run₂, reader₂, unread₂⟩ :=
      ih (e.after mode) _ m₁ rest allowed.2 reader₁ unread₁ (by omega)
    refine ⟨m₂, ?_, reader₂, unread₂⟩
    rw [readAll] at run₂
    rw [readAll, List.mapM_cons, Message.run_bind_ok m run₁, Message.run_bind_ok m₁ run₂]
    rfl

theorem run_flush_writer {mode : CodecMode} (m : Message) (writer : m.Writer mode) :
    ∃ (m' : Message) (pad : Nat), m.run flush = (.ok (), m') ∧ pad < 8 ∧
      Bits.ofBytes m'.stream.bytes.data.toList = m.written ++ List.replicate pad false := by
  cases mode with
  | bitPacked => exact run_flush m (Message.writer_bitPacked_iff.mp writer)
  | byteAligned =>
    refine ⟨m, 0, ?_, by decide, ?_⟩
    · simp only [flush, Message.run_bind, Message.run_mode, writer.layout]
      rfl
    · rw [writer.written_eq rfl, List.replicate_zero, List.append_nil]

/-- Entries written in one layout and flushed read back in order in the same layout; the bytes are
their layouts end to end, completed with zeros. -/
theorem readAll_writeAll (start : CodecMode) (entries : List Entry) (allowed : Allowed start entries) :
    let sent := ({ stream := ByteStream.growing, mode := start } : Message).run
      (do writeAll entries; flush)
    sent.1 = .ok () ∧
      (∃ pad < 8, Bits.ofBytes sent.2.stream.bytes.data.toList =
        layoutAll start 0 entries ++ List.replicate pad false) ∧
      (({ stream := ByteStream.growing sent.2.stream.bytes, mode := start } : Message).run
        (readAll entries)).1 = .ok (entries.map Entry.readBack) := by
  intro sent
  let fresh : Message := { stream := ByteStream.growing, mode := start }
  have writer : fresh.Writer start :=
    ⟨⟨rfl, rfl, BitPacker.clean_empty⟩, rfl, Nat.zero_lt_succ 7, fun _ => rfl⟩
  have empty : fresh.written = [] := by simp [fresh, Message.written, ByteStream.growing]
  obtain ⟨m₁, run₁, writer₁, written₁⟩ := run_writeAll entries start fresh allowed writer
  obtain ⟨m₂, pad, run₂, short, bytes₂⟩ := run_flush_writer m₁ writer₁
  have ran : sent = (.ok (), m₂) := by
    show fresh.run (writeAll entries >>= fun _ => flush) = _
    rw [Message.run_bind_ok fresh run₁, run₂]
  have layoutBits : Bits.ofBytes m₂.stream.bytes.data.toList =
      layoutAll start 0 entries ++ List.replicate pad false := by
    rw [bytes₂, written₁, empty]
    rfl
  -- the reader starts at a byte boundary, as the writer did
  let back : Message := { stream := ByteStream.growing m₂.stream.bytes, mode := start }
  have reader : back.Reader start := ⟨rfl, BitPacker.clean_empty, Nat.zero_lt_succ 7, fun _ => rfl⟩
  have unread : back.unread = layoutAll start 0 entries ++ List.replicate pad false := by
    rw [← layoutBits]
    simp [back, Message.unread, ByteStream.growing]
  have whole : (0 + back.unread.length) % 8 = 0 := by
    rw [unread, ← layoutBits, Bits.length_ofBytes]
    omega
  obtain ⟨m₃, run₃, -, -⟩ := run_readAll entries start 0 back _ allowed reader unread whole
  rw [ran]
  exact ⟨rfl, ⟨pad, short, layoutBits⟩, by rw [run₃]⟩

/-- Raw fields, a boolean, a keyed change and a compressed float packed, then a short and text
aligned, then a raw string packed again, all read back. -/
theorem readAll_writeAll_switching :
    Allowed .bitPacked [.bits (-3) (-5), .bool true, .deltaKey 7 1 9 4, .floatCompressed ⟨0x3F800000⟩,
      .switch .byteAligned, .short (-2), .text "ok", .bits 1000 16, .switch .bitPacked,
      .rawString [104, 105] 8] ∧
    let entries : List Entry := [.bits (-3) (-5), .bool true, .deltaKey 7 1 9 4,
      .floatCompressed ⟨0x3F800000⟩, .switch .byteAligned, .short (-2), .text "ok", .bits 1000 16,
      .switch .bitPacked, .rawString [104, 105] 8]
    let sent := ({ stream := ByteStream.growing, mode := .bitPacked } : Message).run
      (do writeAll entries; flush)
    sent.1 = .ok () ∧
      (∃ pad < 8, Bits.ofBytes sent.2.stream.bytes.data.toList =
        layoutAll .bitPacked 0 entries ++ List.replicate pad false) ∧
      (({ stream := ByteStream.growing sent.2.stream.bytes, mode := .bitPacked } : Message).run
        (readAll entries)).1 = .ok (entries.map Entry.readBack) :=
  ⟨by decide, readAll_writeAll .bitPacked _ (by decide)⟩

/-- Text that holds U+0000 does not come back whole: the reader stops at the zero byte that the
character is written as and returns the text before it. -/
theorem readAll_text_stopsAtZero :
    let entries : List Entry := [.text (String.ofList ['a', Char.ofNat 0, 'b'])]
    let sent := ({ stream := ByteStream.growing, mode := .bitPacked } : Message).run
      (do writeAll entries; flush)
    sent.1 = .ok () ∧
      (({ stream := ByteStream.growing sent.2.stream.bytes, mode := .bitPacked } : Message).run
        (readAll entries)).1 = .ok [.text "a"] := by
  decide +kernel

end Wire

end Netcode
