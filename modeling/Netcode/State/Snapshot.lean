import Netcode.Delta.Player
import Netcode.Delta.Sound
import Netcode.State.GameState

set_option autoImplicit false

namespace Netcode

/-- Whether snapshots are flowing. -/
inductive SnapshotState where
  | inactive
  | active
  | restarted
  deriving DecidableEq, Repr, Inhabited

instance : ToString SnapshotState where
  toString
    | .inactive => "Inactive"
    | .active => "Active"
    | .restarted => "Restarted"

structure Frame where
  serverTime : Int32 := 0
  snapFlags : UInt8 := 0
  areamask : List UInt8 := []
  ps : PlayerState := {}
  entities : List EntityState := []
  sounds : List SoundEvent := []
  deriving Repr, Inhabited

/-- A snapshot as stored in the history ring; its entities sit in the entity ring. -/
structure RawSnapshot where
  valid : Bool := false
  snapFlags : UInt8 := 0
  serverTime : Int32 := 0
  messageNum : UInt32 := 0
  deltaNum : Option UInt32 := none
  ping : Int32 := 0
  areamask : List UInt8 := []
  ps : PlayerState := {}
  numEntities : Nat := 0
  parseEntitiesNum : Nat := 0
  serverCommandNum : UInt32 := 0
  sounds : List SoundEvent := []
  deriving Repr, Inhabited

/-- A snapshot with its entities resolved out of the ring. -/
structure Snapshot where
  messageNum : UInt32
  deltaNum : Option UInt32
  ping : Int32
  serverCommandNum : UInt32
  frame : Frame
  deriving Repr, Inhabited

namespace Snapshot

def backup : Nat := 32

def maxParseEntities : Nat := 2048

/-- A delta from a source whose entities are this close to being overwritten is refused. -/
def parseEntitiesMargin : Nat := 128

def maxAreaBytes : Nat := 32

def maxSounds : Nat := 64

def soundCountBits : Int32 := 7

def knownFlags : UInt8 := 7

def serverCountFlag : UInt8 := 4

end Snapshot

/-- Snapshot history: the latest valid snapshot, the ring of stored ones and the entity
ring. -/
structure SnapshotManager where
  state : SnapshotState := .inactive
  current : RawSnapshot := {}
  snapshots : Array RawSnapshot := Array.replicate Snapshot.backup {}
  parseEntities : Array EntityState := Array.replicate Snapshot.maxParseEntities {}
  parseEntitiesNum : Nat := 0
  deriving Inhabited

namespace SnapshotManager

def slotOf (n : UInt32) : Nat := n.toNat % Snapshot.backup

def slot (mgr : SnapshotManager) (n : UInt32) : RawSnapshot :=
  mgr.snapshots.getD (slotOf n) {}

def latest? (mgr : SnapshotManager) : Option RawSnapshot :=
  match mgr.state with
  | .inactive => none
  | _ => some mgr.current

/-- Records the round trip time measured for the current snapshot, in its slot too if it is
still there. -/
def setPing (mgr : SnapshotManager) (ping : Int32) : SnapshotManager :=
  let current := { mgr.current with ping := ping }
  let i := slotOf current.messageNum
  let snapshots := if (mgr.slot current.messageNum).messageNum = current.messageNum then
      mgr.snapshots.modify i fun s => { s with ping := ping }
    else mgr.snapshots
  { mgr with current := current, snapshots := snapshots }

/-- Whether the snapshot stored for message `n` can serve as a delta source: it is valid, it
is that message's and its entities are not about to be overwritten. -/
def isDeltaSource (mgr : SnapshotManager) (n : UInt32) : Bool :=
  let old := mgr.slot n
  old.valid && old.messageNum = n &&
    mgr.parseEntitiesNum - old.parseEntitiesNum ≤ Snapshot.maxParseEntities - Snapshot.parseEntitiesMargin

/-- The source a snapshot is read against, and whether the snapshot will be valid: one that is
no delta always is, and a delta is when its source can serve. -/
def sourceFor (mgr : SnapshotManager) : Option UInt32 → Bool × Option RawSnapshot
  | none => (true, none)
  | some n => (mgr.isDeltaSource n, some (mgr.slot n))

def ringEntity (mgr : SnapshotManager) (i : Nat) : EntityState :=
  mgr.parseEntities.getD (i % Snapshot.maxParseEntities) {}

def oldEntity (mgr : SnapshotManager) (old : Option RawSnapshot) (i : Nat) : Option EntityState :=
  match old with
  | none => none
  | some o => if i ≥ o.numEntities then none else some (mgr.ringEntity (o.parseEntitiesNum + i))

def push (mgr : SnapshotManager) (s : EntityState) : SnapshotManager :=
  { mgr with
    parseEntities := mgr.parseEntities.set! (mgr.parseEntitiesNum % Snapshot.maxParseEntities) s
    parseEntitiesNum := mgr.parseEntitiesNum + 1 }

/-- Marks invalid the slots of the messages skipped between the current snapshot and
`n`, at most a ring's worth. -/
def invalidateGap (mgr : SnapshotManager) (n : UInt32) : SnapshotManager :=
  let first := mgr.current.messageNum + 1
  let first := if (n - first).toInt32 ≥ Snapshot.backup.toInt32 then n - (Snapshot.backup.toUInt32 - 1)
    else first
  let gap := (n - first).toInt32
  let count := if gap > 0 then gap.toNatClampNeg else 0
  (List.range count).foldl (fun m k =>
    { m with snapshots := m.snapshots.modify (slotOf (first + k.toUInt32)) fun s => { s with valid := false } })
    mgr

/-- Stores a valid snapshot as the current one, noting a restart when it toggles the server
count flag. -/
def record (mgr : SnapshotManager) (snap : RawSnapshot) : SnapshotManager :=
  let mgr := mgr.invalidateGap snap.messageNum
  let state := match mgr.state with
    | .inactive => .active
    | _ => if (snap.snapFlags ^^^ mgr.current.snapFlags) &&& Snapshot.serverCountFlag ≠ 0 then .restarted
      else .active
  { mgr with
    state := state
    snapshots := mgr.snapshots.set! (slotOf snap.messageNum) snap
    current := snap }

/-- A stored snapshot with its entities: none if it is newer than the current one, too old,
invalid, or its entities have since been overwritten. -/
def get? (mgr : SnapshotManager) (n : UInt32) : Option Snapshot :=
  if mgr.state = .inactive then none
  else
    let age := (mgr.current.messageNum - n).toInt32
    if age < 0 ∨ age.toNatClampNeg ≥ Snapshot.backup then none
    else
      let raw := mgr.slot n
      if !raw.valid ∨ raw.messageNum ≠ n then none
      else if mgr.parseEntitiesNum - raw.parseEntitiesNum ≥ Snapshot.maxParseEntities then none
      else
        let entities := (List.range raw.numEntities).map fun i => mgr.ringEntity (raw.parseEntitiesNum + i)
        some {
          messageNum := raw.messageNum
          deltaNum := raw.deltaNum
          ping := raw.ping
          serverCommandNum := raw.serverCommandNum
          frame := {
            serverTime := raw.serverTime
            snapFlags := raw.snapFlags
            areamask := raw.areamask
            ps := raw.ps
            entities := entities
            sounds := raw.sounds } }

end SnapshotManager

/-- A step that reads a message and updates snapshot history together; a failure keeps both as
the step left them. -/
abbrev SnapshotStep := WireWith SnapshotManager

namespace SnapshotStep

def wire {α : Type} (w : Wire α) : SnapshotStep α :=
  WireWith.wire w

def manager : SnapshotStep SnapshotManager :=
  WireWith.value

def update (f : SnapshotManager → SnapshotManager) : SnapshotStep Unit :=
  WireWith.update f

end SnapshotStep

/-- The position in a source snapshot's entities and the entity there, fetched when the position
last moved. -/
structure OldCursor where
  index : Nat
  state : Option EntityState

namespace OldCursor

def next (c : OldCursor) (mgr : SnapshotManager) (old : Option RawSnapshot) : OldCursor :=
  ⟨c.index + 1, mgr.oldEntity old (c.index + 1)⟩

end OldCursor

namespace Protocol

open SnapshotStep

/-- Carries over the source's entities numbered below `bound` (all of them without a bound),
counting them into `count`. -/
def carryOver (old : Option RawSnapshot) (bound : Option UInt32) :
    Nat → OldCursor → Nat → SnapshotStep (OldCursor × Nat)
  | 0, c, count => pure (c, count)
  | fuel + 1, c, count =>
    match c.state with
    | none => pure (c, count)
    | some o =>
      if bound.any (o.number.toUInt32 ≥ ·) then pure (c, count)
      else do
        update (·.push o)
        carryOver old bound fuel (c.next (← manager) old) (count + 1)

def baselineFor (g : GameState) (number : UInt32) : EntityState :=
  (g.baseline number.toNat).getD { number := number.toInt32 }

/-- Reads entity updates up to the end marker, merging them with the source's entities;
answers the number of entities the snapshot holds. -/
def readPacketEntities (p : Protocol) (g : GameState) (old : Option RawSnapshot) :
    Nat → OldCursor → Nat → SnapshotStep Nat
  | 0, _, _ => throw (.streamOverflow .reading)
  | fuel + 1, c, count => do
    let sourceSize := (old.map (·.numEntities)).getD 0 + 1
    let number ← wire p.readNumber
    if number.toNat = p.noneNumber then
      let (_, count) ← carryOver old none sourceSize c count
      return count
    let (c, count) ← carryOver old (some number) sourceSize c count
    let mgr ← manager
    let (base, c) := match c.state with
      | some o => if o.number.toUInt32 = number then (o, c.next mgr old) else (baselineFor g number, c)
      | none => (baselineFor g number, c)
    match ← wire (p.readDeltaEntity (some base) number) with
    | some s =>
      update (·.push s)
      readPacketEntities p g old fuel c (count + 1)
    | none => readPacketEntities p g old fuel c count

def readSoundList (p : Protocol) : Nat → Wire (List SoundEvent)
  | 0 => pure []
  | n + 1 => do
    let s ← p.readSound
    let rest ← readSoundList p n
    return s :: rest

def readSounds (p : Protocol) : Wire (List SoundEvent) := do
  if !(← Wire.readBool) then return []
  let count := (← Wire.readBits Snapshot.soundCountBits).toNatClampNeg
  if count > Snapshot.maxSounds then Wire.fail (.badFieldCount count Snapshot.maxSounds)
  readSoundList p count

/-- Reads a snapshot body of message `messageNum`: a valid one becomes the current snapshot, an
invalid one is not stored though its entities pass through the ring. -/
def parseSnapshot (p : Protocol) (g : GameState) (messageNum serverCommandNum : UInt32) :
    SnapshotStep Bool := do
  let serverTime ← wire Wire.readLong
  let back ← wire Wire.readByte
  let deltaNum := if back = 0 then none else some (messageNum - back.toUInt32)
  let flags := (← wire Wire.readByte) &&& Snapshot.knownFlags
  let mgr ← manager
  let (valid, old) := mgr.sourceFor deltaNum
  let len := (← wire Wire.readByte).toNat
  if len > Snapshot.maxAreaBytes then throw (.badFieldCount len Snapshot.maxAreaBytes)
  let areamask ← wire (Wire.readData len)
  let ps ← wire (p.readDeltaPlayer (old.map (·.ps)))
  let start := (← manager).parseEntitiesNum
  let fuel ← wire Wire.readBudget
  let count ← readPacketEntities p g old fuel ⟨0, mgr.oldEntity old 0⟩ 0
  let sounds ← wire (readSounds p)
  if !valid then return false
  update (·.record {
    valid := true
    snapFlags := flags
    serverTime := serverTime
    messageNum := messageNum
    deltaNum := deltaNum
    areamask := areamask
    ps := ps
    numEntities := count
    parseEntitiesNum := start
    serverCommandNum := serverCommandNum
    sounds := sounds })
  return true

def writeBaseFor (g : GameState) (number : Int32) : EntityState :=
  (if number < 0 then none else g.baseline number.toNatClampNeg).getD { number := number }

/-- Writes the entity updates that turn the `old` entities into the `new` ones, both in number
order. -/
def writeEntityChanges (p : Protocol) (g : GameState) :
    List EntityState → List EntityState → Wire Unit
  | [], [] => pure ()
  | o :: os, [] => do
    p.writeDeltaEntity (some o) none true
    writeEntityChanges p g os []
  | [], n :: ns => do
    p.writeDeltaEntity (some (writeBaseFor g n.number)) (some n) true
    writeEntityChanges p g [] ns
  | o :: os, n :: ns =>
    if n.number = o.number then do
      p.writeDeltaEntity (some o) (some n) false
      writeEntityChanges p g os ns
    else if n.number < o.number then do
      p.writeDeltaEntity (some (writeBaseFor g n.number)) (some n) true
      writeEntityChanges p g (o :: os) ns
    else do
      p.writeDeltaEntity (some o) none true
      writeEntityChanges p g os (n :: ns)
  termination_by os ns => os.length + ns.length

def writeSounds (p : Protocol) (sounds : List SoundEvent) : Wire Unit := do
  if sounds.isEmpty then return ← Wire.writeBool false
  if sounds.length > Snapshot.maxSounds then
    Wire.fail (.badFieldCount sounds.length Snapshot.maxSounds)
  Wire.writeBool true
  Wire.writeBits sounds.length.toInt64 Snapshot.soundCountBits
  sounds.forM p.writeSound

/-- Writes the body of a snapshot message as the server does; `source` is the frame sent the
given number of messages earlier, for a delta. -/
def writeSnapshot (p : Protocol) (g : GameState) (source : Option (Frame × UInt8)) (frame : Frame) :
    Wire Unit := do
  if frame.areamask.length > Snapshot.maxAreaBytes then
    Wire.fail (.badFieldCount frame.areamask.length Snapshot.maxAreaBytes)
  Wire.writeLong frame.serverTime
  Wire.writeByte ((source.map (·.2)).getD 0)
  Wire.writeByte frame.snapFlags
  Wire.writeByte frame.areamask.length.toUInt8
  Wire.writeData frame.areamask
  let old := source.map (·.1)
  p.writeDeltaPlayer (old.map (·.ps)) frame.ps
  writeEntityChanges p g ((old.map (·.entities)).getD []) frame.entities
  p.writeNumber p.noneNumber.toUInt32
  writeSounds p frame.sounds

end Protocol

end Netcode
