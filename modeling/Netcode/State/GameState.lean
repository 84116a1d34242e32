import Netcode.Delta.Entity
import Netcode.Text.Info
import Netcode.State.ConfigString
import Netcode.Opcode

set_option autoImplicit false

namespace Netcode

/-- Config strings and entity baselines as last declared by the server. -/
structure GameState where
  limits : GameStateLimits
  configStrings : Array String
  dataCount : Nat
  baselines : Array (Option EntityState)
  serverCommandSequence : UInt32 := 0
  clientNum : Int32 := 0
  checksumFeed : Int32 := 0
  serverFrameTime : Option Single := none
  deriving Repr, Inhabited

namespace GameState

def new (limits : GameStateLimits) : GameState where
  limits := limits
  configStrings := Array.replicate limits.maxConfigStrings ""
  dataCount := 0
  baselines := Array.replicate limits.maxBaselines none

/-- The characters a config string costs: its bytes and a terminator, or nothing if empty. -/
def cost (s : String) : Nat :=
  if s.isEmpty then 0 else s.utf8ByteSize + 1

def configString (g : GameState) (i : Nat) : Option String :=
  g.configStrings[i]?

/-- Replaces a config string, keeping the total within the character budget. -/
def setConfigString (g : GameState) (i : Nat) (value : String) : Except NetError GameState :=
  if i ≥ g.limits.maxConfigStrings then .error (.badConfigString i)
  else
    let count := g.dataCount - cost (g.configStrings[i]?.getD "") + cost value
    if count > g.limits.maxChars then .error (.gameStateOverflow g.limits.maxChars)
    else .ok { g with dataCount := count, configStrings := g.configStrings.set! i value }

def nonEmpty (g : GameState) : List (Nat × String) :=
  (g.configStrings.toList.zipIdx.filter fun (s, _) => !s.isEmpty).map fun (s, i) => (i, s)

def baseline (g : GameState) (n : Nat) : Option EntityState :=
  (g.baselines[n]?).join

def setBaseline (g : GameState) (s : EntityState) : Except NetError GameState :=
  if s.number < 0 ∨ s.number.toNatClampNeg ≥ g.limits.maxBaselines then
    .error (.badEntityNumber s.number.toUInt32)
  else .ok { g with baselines := g.baselines.set! s.number.toNatClampNeg (some s) }

def presentBaselines (g : GameState) : List EntityState :=
  g.baselines.toList.filterMap id

/-- The config string of a slot read without a bounds check: past the end of the table the read
panics. -/
def slot (g : GameState) (i : Nat) : Except IndexOutOfBounds String :=
  match g.configStrings[i]? with
  | some s => .ok s
  | none => .error ⟨g.configStrings.size, i⟩

def serverInfo (g : GameState) : Except IndexOutOfBounds InfoString :=
  InfoString.parse <$> g.slot ConfigKind.serverInfoIndex

def systemInfo (g : GameState) : Except IndexOutOfBounds InfoString :=
  InfoString.parse <$> g.slot ConfigKind.systemInfoIndex

def serverIdOf (systemInfo : String) : Option UInt32 :=
  (InfoString.valueForKey systemInfo "sv_serverid").bind
    fun v => (Text.parseInt32 (Text.trim v)).map (·.toUInt32)

def serverId (g : GameState) : Except IndexOutOfBounds (Option UInt32) :=
  serverIdOf <$> g.slot ConfigKind.systemInfoIndex

/-- The asset names the state refers to that `provided` does not cover, in index order. Inline
brush models, named `*n`, live in the map and are never missing. -/
def missingAssets (g : GameState) (provided : String → Bool) : List String :=
  (g.nonEmpty.filter fun (i, name) =>
    (ConfigKind.of i).isAsset && !name.startsWith "*" && !provided name).map (·.2)

/-- Sets config strings in order, then baselines in order; the first failure is the outcome. -/
def fill (g : GameState) (strings : List (Nat × String)) (baselines : List EntityState) :
    Except NetError GameState := do
  let g ← strings.foldlM (fun g (i, v) => g.setConfigString i v) g
  baselines.foldlM (fun g b => g.setBaseline b) g

end GameState

namespace Protocol

def readGameStateParts (p : Protocol) : Nat → GameState → Wire GameState
  | 0, _ => Wire.fail (.streamOverflow .reading)
  | fuel + 1, g => do
    let code ← Wire.readByte
    match ServerOp.ofCode? code with
    | some .eof => pure g
    | some .configString =>
      let netIndex ← Wire.readShort
      let index := p.configStringFromNet netIndex.toUInt16.toNat
      let value ← p.readString Wire.bigInfoString
      let g ← Wire.ofExcept (g.setConfigString index value)
      readGameStateParts p fuel g
    | some .baseline =>
      let number ← p.readNumber
      if number.toNat ≥ g.limits.maxBaselines then Wire.fail (.badEntityNumber number)
      let state ← p.readDeltaEntity none number
      let state := state.getD { number := number.toInt32 }
      readGameStateParts p fuel { g with baselines := g.baselines.set! number.toNat (some state) }
    | _ => Wire.fail (.badOpcode code)

def readGameState (p : Protocol) : Wire GameState := do
  let sequence ← Wire.readLong
  let g := { GameState.new p.limits with serverCommandSequence := sequence.toUInt32 }
  let g ← readGameStateParts p (← Wire.readBudget) g
  let clientNum ← Wire.readLong
  let checksumFeed ← Wire.readLong
  let frameTime ← p.readFrameTime
  return { g with clientNum := clientNum, checksumFeed := checksumFeed, serverFrameTime := frameTime }

/-- Writes the body of a game state message as the server does. Config strings without a wire
slot in this protocol are left out. -/
def writeGameState (p : Protocol) (g : GameState) : Wire Unit := do
  Wire.writeLong g.serverCommandSequence.toInt32
  for (i, value) in g.nonEmpty do
    match p.configStringToNet i with
    | none => pure ()
    | some n =>
      Wire.writeByte ServerOp.configString.code
      Wire.writeShort (UInt16.ofNat n).toInt16
      p.writeString value Wire.bigInfoString
  for b in g.presentBaselines do
    Wire.writeByte ServerOp.baseline.code
    p.writeDeltaEntity none (some b) true
  Wire.writeByte ServerOp.eof.code
  Wire.writeLong g.clientNum
  Wire.writeLong g.checksumFeed
  p.writeFrameTime g.serverFrameTime

end Protocol

/-- A config string too long for one server command, arriving in parts: a first part, middle
parts and a last part, all naming the same slot. -/
structure BigConfigString where
  index : Option Nat := none
  buffer : String := ""
  deriving DecidableEq, Repr, Inhabited

namespace BigConfigString

def begin (_ : BigConfigString) (i : Nat) (part : String) : BigConfigString :=
  ⟨some i, part⟩

def append (b : BigConfigString) (i : Nat) (part : String) : BigConfigString :=
  if b.index = some i then { b with buffer := b.buffer ++ part } else b

/-- Adds the last part and answers the whole string if it was started for the same slot.
Either way the assembler is empty afterwards. -/
def finish (b : BigConfigString) (i : Nat) (part : String) : Option String × BigConfigString :=
  if b.index = some i then (some (b.buffer ++ part), {}) else (none, {})

end BigConfigString

end Netcode
