import Mathlib
import Netcode.Proofs.Snapshot.Merge

set_option autoImplicit false

namespace Netcode

open Wire

/-- A sound event in the form the wire gives it. -/
structure SoundEvent.OnWire (p : Protocol) (s : SoundEvent) : Prop where
  entity : s.entityNum.toNat < 2 ^ p.numberBits
  channel : s.channel.toNat < 2 ^ 7
  index : s.soundIndex.toNat < 2 ^ 9
  bare : s.stop = true → s = { entityNum := s.entityNum, channel := s.channel }
  noMaxDist : p.family ≠ .expanded → s.maxDist = none

namespace Protocol

variable {p : Protocol}

theorem optionalFloat_roundTrip (v : Option Single) :
    ∃ bits, Emits (writeOptionalFloat v) () bits ∧ Parses readOptionalFloat bits v := by
  cases v with
  | none =>
    refine ⟨[false], emits_writeBool false, ?_⟩
    refine ((parses_readBool false).bind ?_).of_eq (List.append_nil _) rfl
    exact parses_pure none
  | some x =>
    refine ⟨[true] ++ (Bits.ofNat 32 x.bits.toNat ++ []), (emits_writeBool true).seq ?_, ?_⟩
    · exact (emits_writeFloat x).of_eq (List.append_nil _).symm
    · refine (parses_readBool true).bind ?_
      simp only [if_true]
      exact (parses_readFloat x).bind (parses_pure _)

theorem origin_roundTrip (o : Vec3) :
    ∃ bits, Emits (o.forM Wire.writeFloat) () bits ∧
      Parses (do
        let x ← Wire.readFloat
        let y ← Wire.readFloat
        let z ← Wire.readFloat
        pure (some #v[x, y, z])) bits (some o) := by
  obtain ⟨⟨coordinates⟩, three⟩ := o
  -- a vector of three is its three coordinates
  match coordinates, three with
  | [x, y, z], _ =>
    refine ⟨Bits.ofNat 32 x.bits.toNat ++ (Bits.ofNat 32 y.bits.toNat ++ (Bits.ofNat 32 z.bits.toNat ++ [])), ?_, ?_⟩
    · simp only [Vector.forM, Array.forM]
      exact (emits_writeFloat x).seq ((emits_writeFloat y).seq ((emits_writeFloat z).seq (emits_pure ())))
    · exact (parses_readFloat x).bind ((parses_readFloat y).bind ((parses_readFloat z).bind (parses_pure _)))

theorem widthOf_channelBits : (widthOf SoundEvent.channelBits).toNat = 7 := by decide

theorem widthOf_indexBits : (widthOf SoundEvent.indexBits).toNat = 9 := by decide

theorem word_roundTrip (w : UInt64) (width : Int32) (valid : ValidWidth width) (nonneg : ¬ width < 0)
    (fits : w.toNat < 2 ^ (widthOf width).toNat) :
    ∃ bits, Emits (writeBits w.toInt64 width) () bits ∧ Parses (readBits width) bits w.toInt64 :=
  ⟨_, unsigned_roundTrip w width valid nonneg fits⟩

/-- The maximum distance, which only the expanded family carries; the reader goes on the same
way after it in either family. -/
theorem maxDist_roundTrip {s : SoundEvent} (wire : s.OnWire p) :
    ∃ bits, Emits (if p.family = .expanded then writeOptionalFloat s.maxDist else pure ()) () bits ∧
      ∀ {β : Type} (k : Option Single → Wire β) {b : β} {rest : List Bool}, Parses (k s.maxDist) rest b →
        Parses (if p.family = .expanded then readOptionalFloat >>= k else pure none >>= k) (bits ++ rest) b := by
  by_cases expanded : p.family = .expanded
  · obtain ⟨X, maxOut, maxIn⟩ := optionalFloat_roundTrip s.maxDist
    refine ⟨X, by simpa only [if_pos expanded] using maxOut, fun k b rest next => ?_⟩
    simp only [if_pos expanded]
    exact maxIn.bind next
  · refine ⟨[], by simpa only [if_neg expanded] using emits_pure (), fun k b rest next => ?_⟩
    simp only [if_neg expanded]
    rw [wire.noMaxDist expanded] at next
    exact (parses_pure none).bind next

theorem sound_roundTrip {s : SoundEvent} (wire : s.OnWire p) :
    ∃ bits, Emits (p.writeSound s) () bits ∧ Parses p.readSound bits s := by
  obtain ⟨E, entityOut, entityIn⟩ := word_roundTrip s.entityNum.toUInt64 _ (numberBits_valid p)
    (numberBits_nonneg p) (by rw [widthOf_numberBits]; simpa using wire.entity)
  obtain ⟨C, channelOut, channelIn⟩ := word_roundTrip s.channel.toUInt64 SoundEvent.channelBits (by decide)
    (by decide) (by rw [widthOf_channelBits]; simpa using wire.channel)
  obtain ⟨I, indexOut, indexIn⟩ := word_roundTrip s.soundIndex.toUInt64 SoundEvent.indexBits (by decide)
    (by decide) (by rw [widthOf_indexBits]; simpa using wire.index)
  cases stop : s.stop with
  | true =>
    -- a stop: its entity and its channel
    have bare := wire.bare stop
    refine ⟨[true] ++ (E ++ (C ++ [])), ?_, ?_⟩
    · simp only [writeSound, stop, if_true]
      exact (emits_writeBool true).seq (entityOut.seq (channelOut.of_eq (List.append_nil C).symm))
    · simp only [readSound]
      refine (parses_readBool true).bind ?_
      simp only [if_true]
      refine entityIn.bind (channelIn.bind ?_)
      rw [bare]
      simpa using parses_pure _
  | false =>
    -- a start: every part in turn, the origin and the optional floats each behind a presence bit
    obtain ⟨V, volumeOut, volumeIn⟩ := optionalFloat_roundTrip s.volume
    obtain ⟨M, minOut, minIn⟩ := optionalFloat_roundTrip s.minDist
    obtain ⟨P, pitchOut, pitchIn⟩ := optionalFloat_roundTrip s.pitch
    obtain ⟨X, maxOut, maxIn⟩ := maxDist_roundTrip wire
    -- what follows the origin is written the same way whether there is one or not
    have tailOut := entityOut.seq (channelOut.seq (indexOut.seq (volumeOut.seq (minOut.seq (pitchOut.seq
      (maxOut.of_eq (List.append_nil X).symm))))))
    obtain ⟨stopped, streamed, origin, entityNum, channel, soundIndex, volume, minDist, maxDist, pitch⟩ := s
    simp only at stop
    subst stop
    cases origin with
    | none =>
      refine ⟨[false] ++ ([streamed] ++ ([false] ++ (E ++ (C ++ (I ++ (V ++ (M ++ (P ++ (X ++ []))))))))), ?_, ?_⟩
      · simp only [writeSound, Bool.false_eq_true, if_false]
        exact (emits_writeBool false).seq ((emits_writeBool streamed).seq ((emits_writeBool false).seq tailOut))
      · simp only [readSound]
        refine (parses_readBool false).bind ?_
        simp only [Bool.false_eq_true, if_false]
        refine (parses_readBool streamed).bind ((parses_readBool false).bind ?_)
        simp only [Bool.false_eq_true, if_false]
        refine (parses_pure none).bind (entityIn.bind (channelIn.bind (indexIn.bind
          (volumeIn.bind (minIn.bind (pitchIn.bind (maxIn _ ?_)))))))
        simpa using parses_pure _
    | some o =>
      obtain ⟨O, originOut, originIn⟩ := origin_roundTrip o
      refine ⟨[false] ++ ([streamed] ++ ([true] ++ (O ++ (E ++ (C ++ (I ++ (V ++ (M ++ (P ++ (X ++ [])))))))))),
        ?_, ?_⟩
      · simp only [writeSound, Bool.false_eq_true, if_false]
        exact (emits_writeBool false).seq ((emits_writeBool streamed).seq ((emits_writeBool true).seq
          (originOut.seq tailOut)))
      · simp only [readSound]
        refine (parses_readBool false).bind ?_
        simp only [Bool.false_eq_true, if_false]
        refine (parses_readBool streamed).bind ((parses_readBool true).bind ?_)
        simp only [if_true]
        refine originIn.bind (entityIn.bind (channelIn.bind (indexIn.bind
          (volumeIn.bind (minIn.bind (pitchIn.bind (maxIn _ ?_)))))))
        simpa using parses_pure _

theorem soundList_roundTrip (sounds : List SoundEvent) (wire : ∀ s ∈ sounds, s.OnWire p) :
    ∃ bits, Emits (sounds.forM p.writeSound) () bits ∧ Parses (readSoundList p sounds.length) bits sounds := by
  induction sounds with
  | nil => exact ⟨[], emits_pure (), parses_pure []⟩
  | cons s rest ih =>
    obtain ⟨S, soundOut, soundIn⟩ := sound_roundTrip (wire s List.mem_cons_self)
    obtain ⟨R, restOut, restIn⟩ := ih (fun x mem => wire x (List.mem_cons_of_mem s mem))
    refine ⟨S ++ (R ++ []), ?_, ?_⟩
    · exact soundOut.seq (restOut.of_eq (List.append_nil R).symm)
    · exact soundIn.bind (restIn.bind (parses_pure _))

/-- A snapshot's sounds, at most 64 and each in wire form, read back as they were written. -/
theorem sounds_roundTrip (sounds : List SoundEvent) (few : sounds.length ≤ Snapshot.maxSounds)
    (wire : ∀ s ∈ sounds, s.OnWire p) :
    ∃ bits, Emits (p.writeSounds sounds) () bits ∧ Parses (p.readSounds) bits sounds := by
  cases sounds with
  | nil =>
    -- no sounds is a clear presence bit
    refine ⟨[false], ?_, ?_⟩
    · simp only [writeSounds, List.isEmpty_nil, if_true]
      exact emits_writeBool false
    · simp only [readSounds]
      refine ((parses_readBool false).bind ?_).of_eq (List.append_nil _) rfl
      exact parses_pure []
  | cons s rest =>
    simp only [Snapshot.maxSounds, List.length_cons] at few
    have small : (s :: rest).length.toUInt64.toNat = (s :: rest).length := by
      simp only [Nat.toUInt64_eq, UInt64.toNat_ofNat', List.length_cons]
      omega
    have count : (s :: rest).length.toUInt64.toNat < 2 ^ (widthOf Snapshot.soundCountBits).toNat := by
      have wide : (widthOf Snapshot.soundCountBits).toNat = 7 := by decide
      rw [wide, small, List.length_cons]
      omega
    have counted : (s :: rest).length.toUInt64.toInt64.toNatClampNeg = (s :: rest).length := by
      rw [Nat.toUInt64_eq, UInt64.toInt64_ofNat', Int64.toNatClampNeg, Int64.toInt_ofNat_of_lt (by simp; omega)]
      simp
    obtain ⟨N, countOut, countIn⟩ := word_roundTrip (s :: rest).length.toUInt64 Snapshot.soundCountBits
      (by decide) (by decide) count
    obtain ⟨S, soundsOut, soundsIn⟩ := soundList_roundTrip (s :: rest) wire
    have kept : ¬ (s :: rest).length > Snapshot.maxSounds := by
      simp only [Snapshot.maxSounds, List.length_cons]
      omega
    refine ⟨[true] ++ (N ++ S), ?_, ?_⟩
    · simp only [writeSounds, List.isEmpty_cons, Bool.false_eq_true, if_false, if_neg kept]
      exact (emits_writeBool true).seq (countOut.seq soundsOut)
    · simp only [readSounds]
      refine (parses_readBool true).bind ?_
      simp only [Bool.not_true, Bool.false_eq_true, if_false]
      refine countIn.bind ?_
      simp only [counted, if_neg kept]
      exact soundsIn

end Protocol

end Netcode
