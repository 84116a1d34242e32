import Mathlib
import Netcode.Proofs.Session.Moves
import Netcode.Proofs.Wire.Values
import Netcode.Client.Session.Outgoing
import Netcode.Proofs.Channel.Keystream

set_option autoImplicit false

namespace Netcode

namespace Wire

section Bounds

variable {α β : Type}

/-- On every bit-packed writer, `w` succeeds, appending at most `n` bits. -/
def Fits (w : Wire α) (n : Nat) : Prop :=
  ∀ m : Message, m.Writing → ∃ (a : α) (m' : Message) (bits : List Bool),
    m.run w = (.ok a, m') ∧ m'.Writing ∧ m'.written = m.written ++ bits ∧ bits.length ≤ n

/-- On every bit-packed writer, `w` fails with `e`. -/
def Refuses (w : Wire α) (e : NetError) : Prop :=
  ∀ m : Message, m.Writing → ∃ m' : Message, m.run w = (.error e, m')

theorem Emits.fits {w : Wire α} {a : α} {bits : List Bool} (emits : Emits w a bits) : Fits w bits.length := by
  intro m writing
  obtain ⟨m', run', writing', written'⟩ := emits m writing
  exact ⟨a, m', bits, run', writing', written', le_refl _⟩

theorem fits_pure (a : α) : Fits (pure a) 0 :=
  (emits_pure a).fits

theorem Fits.mono {w : Wire α} {n k : Nat} (fits : Fits w n) (le : n ≤ k) : Fits w k := by
  intro m writing
  obtain ⟨a, m', bits, run', writing', written', short⟩ := fits m writing
  exact ⟨a, m', bits, run', writing', written', short.trans le⟩

theorem Fits.bind {x : Wire α} {f : α → Wire β} {n k : Nat} (first : Fits x n) (next : ∀ a, Fits (f a) k) :
    Fits (x >>= f) (n + k) := by
  intro m writing
  obtain ⟨a, m₁, front, run₁, writing₁, written₁, short₁⟩ := first m writing
  obtain ⟨b, m₂, back, run₂, writing₂, written₂, short₂⟩ := next a m₁ writing₁
  refine ⟨b, m₂, front ++ back, ?_, writing₂, ?_, ?_⟩
  · rw [Message.run_bind_ok m run₁, run₂]
  · rw [written₂, written₁, List.append_assoc]
  · rw [List.length_append]
    omega

theorem Refuses.bind {x : Wire α} {e : NetError} (first : Refuses x e) (f : α → Wire β) : Refuses (x >>= f) e := by
  intro m writing
  obtain ⟨m', run'⟩ := first m writing
  exact ⟨m', Message.run_bind_error m run' f⟩

theorem Fits.bind_refuses {x : Wire α} {f : α → Wire β} {n : Nat} {e : NetError} (first : Fits x n)
    (next : ∀ a, Refuses (f a) e) : Refuses (x >>= f) e := by
  intro m writing
  obtain ⟨a, m₁, -, run₁, writing₁, -, -⟩ := first m writing
  obtain ⟨m₂, run₂⟩ := next a m₁ writing₁
  exact ⟨m₂, by rw [Message.run_bind_ok m run₁, run₂]⟩

theorem Emits.bind_refuses {x : Wire α} {f : α → Wire β} {a : α} {bits : List Bool} {e : NetError}
    (first : Emits x a bits) (next : Refuses (f a) e) : Refuses (x >>= f) e := by
  intro m writing
  obtain ⟨m₁, run₁, writing₁, -⟩ := first m writing
  obtain ⟨m₂, run₂⟩ := next m₁ writing₁
  exact ⟨m₂, by rw [Message.run_bind_ok m run₁, run₂]⟩

end Bounds

section Loops

variable {γ σ : Type}

/-- A loop whose every round fits its element's bound fits the sum of the bounds, whatever the
state it carries and whether it stops early. -/
theorem fits_forIn (l : List γ) (init : σ) (body : γ → σ → Wire (ForInStep σ)) (bound : γ → Nat)
    (each : ∀ x ∈ l, ∀ c, Fits (body x c) (bound x)) : Fits (forIn l init body) (l.map bound).sum := by
  induction l generalizing init with
  | nil => exact fits_pure init
  | cons x rest ih =>
    rw [List.forIn_cons, List.map_cons, List.sum_cons]
    refine (each x (List.mem_cons_self ..) init).bind fun step => ?_
    cases step with
    | done c => exact (fits_pure c).mono (Nat.zero_le _)
    | yield c => exact ih c fun y mem => each y (List.mem_cons_of_mem _ mem)

theorem fits_forM (l : List γ) (w : γ → Wire PUnit) (bound : γ → Nat) (each : ∀ x ∈ l, Fits (w x) (bound x)) :
    Fits (l.forM w) (l.map bound).sum := by
  induction l with
  | nil => exact fits_pure _
  | cons x rest ih =>
    rw [List.map_cons, List.sum_cons]
    exact (each x (List.mem_cons_self ..)).bind fun _ => ih fun y mem => each y (List.mem_cons_of_mem _ mem)

theorem refuses_forIn (l : List γ) (body : γ → PUnit → Wire (ForInStep PUnit)) {e : NetError}
    (each : ∀ x ∈ l, Refuses (body x PUnit.unit) e ∨ ∃ bits, Emits (body x PUnit.unit) (.yield PUnit.unit) bits)
    (found : ∃ x ∈ l, Refuses (body x PUnit.unit) e) : Refuses (forIn l PUnit.unit body) e := by
  induction l with
  | nil =>
    obtain ⟨x, mem, -⟩ := found
    exact absurd mem List.not_mem_nil
  | cons x rest ih =>
    rw [List.forIn_cons]
    by_cases refused : Refuses (body x PUnit.unit) e
    · exact refused.bind _
    · -- this element goes out, and a later one fails
      obtain ⟨bits, emits⟩ := (each x (List.mem_cons_self ..)).resolve_left refused
      obtain ⟨x', mem, refuses'⟩ := found
      have later : x' ∈ rest := by
        rcases List.mem_cons.mp mem with rfl | later
        · exact absurd refuses' refused
        · exact later
      exact emits.bind_refuses (ih (fun y mem => each y (List.mem_cons_of_mem _ mem)) ⟨x', later, refuses'⟩)

end Loops

theorem fits_flush : Fits flush 7 := by
  intro m writing
  obtain ⟨m', run', sink', empty', mode', written'⟩ := run_flushBits m writing.toSink writing.pending
  refine ⟨(), m', _, ?_, ⟨sink', mode'.trans writing.mode, by rw [empty']; decide⟩, written', ?_⟩
  · simp only [flush, Message.run_bind, Message.run_mode, writing.mode]
    exact run'
  · rw [List.length_replicate]
    omega

theorem fits_writeBits (value : Int64) (bits : Int32) (valid : ValidWidth bits) :
    Fits (writeBits value bits) (widthOf bits).toNat :=
  ((emits_writeBits value bits valid).fits).mono (by rw [Bits.length_ofNat])

theorem fits_writeDeltaKey (key old new : UInt32) (bits : Int32) (carries : CodecMode.bitPacked.Carries (widthOf bits)) :
    Fits (writeDeltaKey key old new bits) ((widthOf bits).toNat + 1) := by
  refine ((emitsIn_writeDeltaKey key old new bits carries).bitPacked.fits).mono ?_
  unfold keyedChange
  split <;> simp [Bits.length_ofNat]

theorem fits_writeString (s : String) (short : s.utf8ByteSize < maxStringChars) :
    Fits (writeString s) (8 * (s.utf8ByteSize + 1)) :=
  ((emitsIn_writeString .bitPacked s short).bitPacked.fits).mono (by
    rw [Bits.length_ofBytes, List.length_append, Utf8.length_toUTF8_toList, List.length_singleton])

theorem refuses_writeString (s : String) (long : maxStringChars ≤ s.utf8ByteSize) :
    Refuses (writeString s) (.stringTooLong maxStringChars) := by
  intro m _
  have beyond : s.toUTF8.toList.length ≥ maxStringChars := by
    rw [Utf8.length_toUTF8_toList]
    exact long
  refine ⟨m, ?_⟩
  simp only [writeString, writeRawString, if_pos beyond, Message.run_bind, Message.run_fail]

theorem fits_writeChangedComponents {α : Type} {k : Nat} (same : α → α → Bool) (write : α → Wire Unit)
    (old new : Vector α k) (n : Nat) (each : ∀ b, Fits (write b) n) :
    Fits (writeChangedComponents same write old new) (k * (n + 1)) := by
  unfold writeChangedComponents
  refine (fits_forM _ _ (fun _ => n + 1) fun x _ => ?_).mono ?_
  · obtain ⟨a, b⟩ := x
    dsimp only
    split
    · exact (emits_writeBool false).fits.mono (by simp)
    · exact ((emits_writeBool true).fits.bind fun _ => each b).mono (by simp [Nat.add_comm])
  · simp

theorem fits_writeEyes (old new : UserEyes) : Fits (writeEyes old new) 94 := by
  unfold writeEyes
  split
  · exact (emits_writeBool false).fits.mono (by simp)
  · have offsets := fits_writeChangedComponents (fun x y => decide (x = y)) (fun o => writeBits o.toInt64 (-8))
      old.ofs new.ofs 8 fun o => (fits_writeBits o.toInt64 (-8) (by decide)).mono (by decide)
    have angles := fits_writeChangedComponents (fun a b => decide (a.bits = b.bits)) writeFloat
      old.angles new.angles 32 fun x => (emits_writeFloat x).fits.mono (by rw [Bits.length_ofNat])
    exact ((emits_writeBool true).fits.bind fun _ => offsets.bind fun _ => angles).mono (by simp)

/-- A user command takes at most 129 bits: its time in 9 or 33, then a bit, and when the input
changed, three angles of 16 bits, three moves of a byte and the buttons, each a keyed delta. -/
theorem fits_writeDeltaUserCmd (buttonBits : Int32) (carries : CodecMode.bitPacked.Carries (widthOf buttonBits))
    (narrow : (widthOf buttonBits).toNat ≤ 16) (key : UInt32) (old new : UserCmd) :
    Fits (writeDeltaUserCmd buttonBits key old new) 129 := by
  have byte : (widthOf 8).toNat = 8 := by decide
  have angle : (widthOf 16).toNat = 16 := by decide
  unfold writeDeltaUserCmd
  dsimp only
  -- the time goes out in 9 or 33 bits, and the input after it is the same either way
  split
  all_goals
    refine ((emits_writeBool _).fits.bind fun _ => (fits_writeBits _ _ (by decide)).bind fun _ =>
      (?_ : Fits _ 96)).mono (by simp only [List.length_singleton]; decide)
    split
    · exact (emits_writeBool false).fits.mono (by simp)
    · refine ((emits_writeBool true).fits.bind fun _ =>
        (fits_forM _ _ (fun _ => 17) fun x _ => ?_).bind fun _ =>
        (fits_writeDeltaKey _ _ _ 8 (by decide)).bind fun _ =>
        (fits_writeDeltaKey _ _ _ 8 (by decide)).bind fun _ =>
        (fits_writeDeltaKey _ _ _ 8 (by decide)).bind fun _ =>
        fits_writeDeltaKey _ _ _ buttonBits carries).mono ?_
      · obtain ⟨a, b⟩ := x
        exact (fits_writeDeltaKey _ _ _ 16 (by decide)).mono (by rw [angle])
      · simp only [List.length_singleton, List.map_const', List.sum_replicate, List.length_zip,
          Vector.length_toList, min_self, smul_eq_mul, byte]
        omega

end Wire

theorem Protocol.fits_writeUserCmd (p : Protocol) (key : UInt32) (old new : UserCmd) :
    Wire.Fits (p.writeUserCmd key old new) 129 := by
  unfold Protocol.writeUserCmd Protocol.buttonBits
  split <;> exact Wire.fits_writeDeltaUserCmd _ (by decide) (by decide) key old new

namespace Cipher

theorem length_outgoing (challenge serverId messageAck : UInt32) (command data : List UInt8) (first : Nat) :
    (outgoing challenge serverId messageAck command data first).length = data.length :=
  length_apply _ _ _ _

end Cipher

namespace ClientSession

open Wire

/-- The bytes a packet takes besides its reliable commands: acknowledges, move code and count, at
most `maxPacketCmds` commands with their eyes, and the end code. -/
def packetOverhead : Nat :=
  12 + 2 + (maxPacketCmds * (129 + 94) + 7) / 8 + 1

/-- The body of a packet whose pending commands are under the string limit goes out, in at most
six bytes more than each command's text and the overhead, and less than a byte of padding. -/
theorem fits_packetBody (s : ClientSession) (short : ∀ c ∈ s.reliable.pending, c.2.utf8ByteSize < maxStringChars) :
    Fits s.packetBody (8 * ((s.reliable.pending.map fun c => c.2.utf8ByteSize + 6).sum + packetOverhead) + 7) := by
  unfold packetBody
  dsimp only
  refine ((emits_writeLong _).fits.bind fun _ => (emits_writeLong _).fits.bind fun _ =>
    (emits_writeLong _).fits.bind fun _ =>
      (fits_forIn _ _ _ (fun c : UInt32 × String => 8 * (c.2.utf8ByteSize + 6)) fun c mem _ => ?_).bind fun _ =>
        (?_ : Fits _ 7167)).mono ?_
  · -- a pending command: its code, its sequence and its text
    obtain ⟨seq, cmd⟩ := c
    refine ((emits_writeByte _).fits.bind fun _ => (emits_writeLong _).fits.bind fun _ =>
      (fits_writeString cmd (short _ mem)).bind fun _ => fits_pure _).mono ?_
    simp only [Bits.length_ofNat]
    omega
  · -- the moves, if any, then the end code and the padding
    have closing : ∀ t : Int32, Fits (do writeByte ClientOp.eof.code; flush; pure t) 15 := fun t =>
      ((emits_writeByte _).fits.bind fun _ => fits_flush.bind fun _ => fits_pure t).mono (by simp)
    split
    · refine ((emits_writeByte _).fits.bind fun _ => (emits_writeByte _).fits.bind fun _ =>
        (fits_forIn _ _ _ (fun _ => 223) fun i _ c =>
          ((s.protocol.fits_writeUserCmd _ _ _).bind fun _ => (fits_writeEyes _ _).bind fun _ =>
            fits_pure _).mono (by omega)).bind fun _ => closing _).mono ?_
      have few : min (s.cmdNumber - ((s.lastPacket.map fun p => p.cmdNumber).getD 0)).toNat maxPacketCmds ≤ 32 :=
        Nat.min_le_right _ _
      simp only [Bits.length_ofNat, List.map_const', List.sum_replicate, List.length_range, smul_eq_mul]
      omega
    · exact (closing 0).mono (by omega)
  · simp only [Bits.length_ofNat, packetOverhead, maxPacketCmds, List.sum_map_mul_left]
    omega

theorem refuses_packetBody (s : ClientSession) (long : ∃ c ∈ s.reliable.pending, maxStringChars ≤ c.2.utf8ByteSize) :
    Refuses s.packetBody (.stringTooLong maxStringChars) := by
  unfold packetBody
  dsimp only
  refine (emits_writeLong _).fits.bind_refuses fun _ => (emits_writeLong _).fits.bind_refuses fun _ =>
    (emits_writeLong _).fits.bind_refuses fun _ => Refuses.bind ?_ _
  obtain ⟨⟨seq, cmd⟩, mem, tooLong⟩ := long
  refine refuses_forIn _ _ (fun c _ => ?_) ⟨(seq, cmd), mem, ?_⟩
  · obtain ⟨seq', cmd'⟩ := c
    by_cases fits : cmd'.utf8ByteSize < maxStringChars
    · refine .inr ⟨_, (emits_writeByte _).bind ((emits_writeLong _).bind
        (((emitsIn_writeString .bitPacked cmd' fits).bitPacked).bind (emits_pure _)))⟩
    · exact .inl ((emits_writeByte _).fits.bind_refuses fun _ => (emits_writeLong _).fits.bind_refuses fun _ =>
        (refuses_writeString cmd' (Nat.le_of_not_lt fits)).bind _)
  · exact (emits_writeByte _).fits.bind_refuses fun _ => (emits_writeLong _).fits.bind_refuses fun _ =>
      (refuses_writeString cmd tooLong).bind _

end ClientSession

namespace SessionStep

open ClientSession Wire

/-- A packet goes out when every pending reliable command is under the string limit; otherwise it
fails and leaves the session as it was, so every later packet fails too. -/
theorem writePacket_sends (s : ClientSession) :
    ((∀ c ∈ s.reliable.pending, c.2.utf8ByteSize < maxStringChars) →
      (s.reliable.pending.map fun c => c.2.utf8ByteSize + 6).sum + packetOverhead ≤ Netchan.maxMessageLen →
      (writePacket.run s).1 = .ok ()) ∧
    ((∃ c ∈ s.reliable.pending, maxStringChars ≤ c.2.utf8ByteSize) →
      writePacket.run s = (.error (.net (.stringTooLong maxStringChars)), s)) := by
  have fresh : (Message.onStream ByteStream.growing).Writing := ⟨⟨rfl, rfl, BitPacker.clean_empty⟩, rfl, by decide⟩
  refine ⟨fun short room => ?_, fun long => ?_⟩
  · obtain ⟨t, m, bits, body, -, written, bound⟩ := s.fits_packetBody short _ fresh
    -- the body's bytes are what was written, less the bits still waiting
    have bytes : m.stream.bytes.toList.length ≤
        (s.reliable.pending.map fun c => c.2.utf8ByteSize + 6).sum + packetOverhead := by
      have empty : (Message.onStream ByteStream.growing).written = [] := by
        simp [Message.written, Message.onStream, ByteStream.growing]
      have total := congrArg List.length written
      rw [empty, List.nil_append, Message.written, List.length_append, Bits.length_ofBytes] at total
      rw [ByteArray.toList_eq_data_toList]
      omega
    unfold writePacket
    rw [run_get_bind]
    dsimp only
    rw [body]
    dsimp only
    rw [run_set_bind]
    split
    · -- the channel refuses only a message over its limit
      rename_i refused
      unfold Netchan.transmit at refused
      rw [if_neg (by rw [Cipher.length_outgoing]; omega)] at refused
      split at refused <;> cases refused
    · rfl
  · obtain ⟨m, body⟩ := s.refuses_packetBody long _ fresh
    unfold writePacket
    rw [run_get_bind]
    dsimp only
    rw [body]
    rfl

theorem writePacket_sends_boundary :
    let base : ClientSession := {
      settings := {}
      protocol := ⟨8, .classic, true⟩
      userinfo := {}
      chan := Netchan.new .client 1
      reliable := ReliableSequence.new maxReliableCommands
      serverCommands := CommandSequence.new maxReliableCommands
      gamestate := GameState.new (Protocol.limits ⟨8, .classic, true⟩)
      cmds := #[]
      eyes := #[]
      outPackets := #[] }
    let said := (base.addReliable (String.replicate 1023 'x')).2
    let tooLong := (base.addReliable (String.replicate 1024 'x')).2
    (∀ c ∈ said.reliable.pending, c.2.utf8ByteSize < maxStringChars) ∧
      (said.reliable.pending.map fun c => c.2.utf8ByteSize + 6).sum + packetOverhead ≤ Netchan.maxMessageLen ∧
      (writePacket.run said).1 = .ok () ∧
    (∃ c ∈ tooLong.reliable.pending, maxStringChars ≤ c.2.utf8ByteSize) ∧
      writePacket.run tooLong = (.error (.net (.stringTooLong maxStringChars)), tooLong) := by
  intro base said tooLong
  have short : ∀ c ∈ said.reliable.pending, c.2.utf8ByteSize < maxStringChars := by decide +kernel
  have room : (said.reliable.pending.map fun c => c.2.utf8ByteSize + 6).sum + packetOverhead ≤
      Netchan.maxMessageLen := by decide +kernel
  have long : ∃ c ∈ tooLong.reliable.pending, maxStringChars ≤ c.2.utf8ByteSize := by decide +kernel
  exact ⟨short, room, (writePacket_sends said).1 short room, long, (writePacket_sends tooLong).2 long⟩

end SessionStep

end Netcode
