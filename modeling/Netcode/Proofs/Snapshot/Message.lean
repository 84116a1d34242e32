import Mathlib
import Netcode.Proofs.Snapshot.Sounds

set_option autoImplicit false

namespace Netcode

open Wire

/-- A player state in the form the wire gives it. The classic table leaves the radar blip and
the vote out, so there they are blank. -/
structure PlayerState.OnWire (p : Protocol) (ps : PlayerState) : Prop where
  fixed : p.playerTable.Fixed ps
  counters : ∀ c ∈ PlayerState.counters, ∀ x ∈ c.get ps, fitInt (-16) x = x
  untransmitted : p.family = .classic → ps.radarInfo = 0 ∧ ps.voted = 0

structure Frame.OnWire (p : Protocol) (F : Frame) : Prop where
  flags : F.snapFlags &&& Snapshot.knownFlags = F.snapFlags
  areamask : F.areamask.length ≤ Snapshot.maxAreaBytes
  ps : F.ps.OnWire p
  ordered : F.entities.Pairwise (·.number < ·.number)
  entities : ∀ e ∈ F.entities, p.Numbered e ∧ p.entityTable.Fixed e
  fewSounds : F.sounds.length ≤ Snapshot.maxSounds
  sounds : ∀ s ∈ F.sounds, s.OnWire p

/-- The snapshot the history stores for a frame received in message `messageNum`, with its
entities from `start` on in the ring. -/
def Frame.stored (F : Frame) (messageNum : UInt32) (deltaNum : Option UInt32) (serverCommandNum : UInt32)
    (start : Nat) : RawSnapshot where
  valid := true
  snapFlags := F.snapFlags
  serverTime := F.serverTime
  messageNum := messageNum
  deltaNum := deltaNum
  areamask := F.areamask
  ps := F.ps
  numEntities := F.entities.length
  parseEntitiesNum := start
  serverCommandNum := serverCommandNum
  sounds := F.sounds

/-- The history serves the writer's source for `room` pushes: there is none, or it is a nonzero
distance back, accepted, with its player state and its entities in the ring. -/
def SnapshotManager.Serves (mgr : SnapshotManager) (messageNum : UInt32) (room : Nat) :
    Option (Frame × UInt8) → Prop
  | none => True
  | some (source, back) =>
    back ≠ 0 ∧ mgr.isDeltaSource (messageNum - back.toUInt32) = true ∧
      (mgr.slot (messageNum - back.toUInt32)).ps = source.ps ∧
      mgr.Holds (some (mgr.slot (messageNum - back.toUInt32))) 0 source.entities room

theorem PlayerState.receive_onWire {p : Protocol} {ps : PlayerState} (wire : ps.OnWire p) (base : PlayerState)
    (blank : p.family = .classic → base.radarInfo = 0 ∧ base.voted = 0) :
    receiveCounters base ps (p.playerTable.patch base ps) = ps := by
  have fixed := wire.fixed
  cases family : p.family with
  | classic =>
    simp only [Protocol.playerTable, family] at fixed ⊢
    obtain ⟨radar, vote⟩ := blank family
    obtain ⟨radar', vote'⟩ := wire.untransmitted family
    exact receive_of_fixed false base ps fixed wire.counters
      (fun _ => ⟨radar.trans radar'.symm, vote.trans vote'.symm⟩)
  | expanded =>
    simp only [Protocol.playerTable, family] at fixed ⊢
    exact receive_of_fixed true base ps fixed wire.counters (fun classic => by cases classic)

namespace Protocol

variable {p : Protocol}

theorem toNat_areamaskLength {F : Frame} (wire : F.OnWire p) : F.areamask.length.toUInt8.toNat = F.areamask.length := by
  have few := wire.areamask
  simp only [Snapshot.maxAreaBytes] at few
  simp only [Nat.toUInt8_eq, UInt8.toNat_ofNat']
  omega

/-- The reader of a snapshot message, run on the bits of its parts, from a history that accepts
its source: it stores the frame those parts make after pushing its entities. -/
theorem parseSnapshot_parses {g : GameState} {messageNum cmd : UInt32} {mgr : SnapshotManager} {back : UInt8}
    {old : Option RawSnapshot} {olds : List EntityState} {F : Frame} {P B S : List Bool}
    (wire : F.OnWire p)
    (chosen : mgr.sourceFor (if back = 0 then none else some (messageNum - back.toUInt32)) = (true, old))
    (player : Parses (p.readDeltaPlayer (old.map (·.ps))) P F.ps)
    (holds : mgr.Holds old 0 olds F.entities.length) (reads : p.MergeReads g old olds F.entities B)
    (sounds : Parses p.readSounds S F.sounds) :
    WireWith.Parses (p.parseSnapshot g messageNum cmd)
      (Bits.ofNat 32 F.serverTime.toUInt32.toNat ++ (Bits.ofNat 8 back.toNat ++ (Bits.ofNat 8 F.snapFlags.toNat ++
        ([] ++ (Bits.ofNat 8 F.areamask.length.toUInt8.toNat ++ (Bits.ofBytes F.areamask ++ (P ++ ([] ++
          ((B ++ Bits.ofNat p.numberBits p.noneNumber) ++ (S ++ ([] ++ []))))))))))) mgr true
      ((F.entities.foldl SnapshotManager.push mgr).record
        (F.stored messageNum (if back = 0 then none else some (messageNum - back.toUInt32)) cmd
          mgr.parseEntitiesNum)) := by
  have fits : ¬ F.areamask.length.toUInt8.toNat > Snapshot.maxAreaBytes := by
    rw [toNat_areamaskLength wire]
    exact Nat.not_lt.mpr wire.areamask
  simp only [parseSnapshot]
  -- the header: time, distance back and flags, then the area mask behind its count
  refine (WireWith.parses_wire (parses_readLong F.serverTime) mgr).bind ?_
  refine (WireWith.parses_wire (parses_readByte back) mgr).bind ?_
  refine (WireWith.parses_wire (parses_readByte F.snapFlags) mgr).bind ?_
  refine (WireWith.parses_value mgr).bind ?_
  refine (WireWith.parses_wire (parses_readByte _) mgr).bind ?_
  simp only [chosen, if_neg fits]
  rw [toNat_areamaskLength wire]
  refine (WireWith.parses_wire (parses_readData F.areamask) mgr).bind ?_
  -- the player state, then the entities read with the fuel the rest of the message allows
  refine (WireWith.parses_wire player mgr).bind ?_
  refine (WireWith.parses_value mgr).bind ?_
  refine WireWith.parses_budget fun fuel enough => ?_
  have budget : (B ++ Bits.ofNat p.numberBits p.noneNumber).length < 8 * fuel := by
    simp only [List.length_append, List.length_nil] at enough ⊢
    omega
  have cursor : ({ index := 0, state := mgr.oldEntity old 0 } : OldCursor).state = ([] ++ olds).head? :=
    holds.oldEntity
  have pushed := (reads [] fuel _ 0 mgr (by simpa using holds) cursor (by simp) budget).of_eq rfl
    (by simp : 0 + [].length + F.entities.length = F.entities.length)
    (by rw [List.nil_append] : ([] ++ F.entities).foldl SnapshotManager.push mgr = F.entities.foldl _ mgr)
  refine pushed.bind ((WireWith.parses_wire sounds _).bind ?_)
  -- a snapshot whose source serves is valid, and is stored
  simp only [Bool.not_true, Bool.false_eq_true, if_false, wire.flags]
  exact (WireWith.parses_update _ _).bind (WireWith.parses_pure _ true)

/-- A snapshot message reads back as its frame: a client whose history serves the source reads the
frame, pushes its entities and stores it for its message. -/
theorem snapshot_roundTrip (g : GameState) (source : Option (Frame × UInt8)) (F : Frame) (wire : F.OnWire p)
    (sourceWire : ∀ src ∈ source, src.1.OnWire p) (messageNum cmd : UInt32) :
    ∃ body, Emits (p.writeSnapshot g source F) ()
        (Bits.ofNat 32 F.serverTime.toUInt32.toNat ++ (Bits.ofNat 8 ((source.map Prod.snd).getD 0).toNat ++ body)) ∧
      ∀ mgr : SnapshotManager, mgr.Serves messageNum F.entities.length source →
        WireWith.Parses (p.parseSnapshot g messageNum cmd)
          (Bits.ofNat 32 F.serverTime.toUInt32.toNat ++ (Bits.ofNat 8 ((source.map Prod.snd).getD 0).toNat ++ body)) mgr
          true
          ((F.entities.foldl SnapshotManager.push mgr).record
            (F.stored messageNum (source.map fun src => messageNum - src.2.toUInt32) cmd mgr.parseEntitiesNum)) := by
  have fits : ¬ F.areamask.length > Snapshot.maxAreaBytes := Nat.not_lt.mpr wire.areamask
  -- the writer's old entities: none, or the source frame's
  have oldsOrdered : (((source.map (·.1)).map (·.entities)).getD []).Pairwise (·.number < ·.number) := by
    rcases source with _ | ⟨src, back⟩
    · exact List.Pairwise.nil
    · exact (sourceWire (src, back) rfl).ordered
  have oldsNumbered : ∀ o ∈ ((source.map (·.1)).map (·.entities)).getD [], p.Numbered o := by
    rcases source with _ | ⟨src, back⟩
    · intro o mem
      simp at mem
    · exact fun o mem => ((sourceWire (src, back) rfl).entities o mem).1
  obtain ⟨P, playerOut, playerIn⟩ := deltaPlayer_roundTrip p ((source.map (·.1)).map (·.ps)) F.ps
  obtain ⟨B, changesOut, reads⟩ := entityChanges_roundTrip g _ F.entities oldsOrdered wire.ordered
    oldsNumbered wire.entities
  obtain ⟨endOut, -⟩ := endNumber_roundTrip (p := p)
  obtain ⟨S, soundsOut, soundsIn⟩ := sounds_roundTrip F.sounds wire.fewSounds wire.sounds
  refine ⟨Bits.ofNat 8 F.snapFlags.toNat ++ (Bits.ofNat 8 F.areamask.length.toUInt8.toNat ++ (Bits.ofBytes F.areamask ++
      (P ++ (B ++ (Bits.ofNat p.numberBits p.noneNumber ++ S))))), ?_, fun mgr serves => ?_⟩
  · simp only [writeSnapshot, if_neg fits]
    exact (emits_writeLong _).seq ((emits_writeByte _).seq ((emits_writeByte _).seq ((emits_writeByte _).seq
      ((emits_writeData _).seq (playerOut.seq (changesOut.seq (endOut.seq soundsOut)))))))
  -- the reader's source is none, or the history's snapshot of the message the writer deltas from
  rcases source with _ | ⟨src, back⟩
  · have chosen : mgr.sourceFor (if (0 : UInt8) = 0 then none else some (messageNum - (0 : UInt8).toUInt32)) =
        (true, none) := rfl
    have player : Parses (p.readDeltaPlayer none) P F.ps :=
      playerIn.of_eq rfl (PlayerState.receive_onWire wire.ps {} (fun _ => ⟨rfl, rfl⟩))
    have holds : mgr.Holds none 0 [] F.entities.length := rfl
    exact (parseSnapshot_parses wire chosen player holds (reads none) soundsIn).of_eq (by simp) rfl (by simp)
  · obtain ⟨nonzero, accepted, samePs, holds⟩ := serves
    have chosen : mgr.sourceFor (if back = 0 then none else some (messageNum - back.toUInt32)) =
        (true, some (mgr.slot (messageNum - back.toUInt32))) := by
      simp only [if_neg nonzero, SnapshotManager.sourceFor, accepted]
    have blank (classic : p.family = .classic) : src.ps.radarInfo = 0 ∧ src.ps.voted = 0 :=
      (sourceWire (src, back) rfl).ps.untransmitted classic
    have player : Parses (p.readDeltaPlayer (some (mgr.slot (messageNum - back.toUInt32)).ps)) P F.ps := by
      rw [samePs]
      exact playerIn.of_eq rfl (PlayerState.receive_onWire wire.ps src.ps blank)
    exact (parseSnapshot_parses wire chosen player holds (reads _) soundsIn).of_eq (by simp) rfl
      (by simp [nonzero])

end Protocol

end Netcode
