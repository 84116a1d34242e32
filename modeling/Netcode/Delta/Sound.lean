import Netcode.Delta.Entity

set_option autoImplicit false

namespace Netcode

/-- A sound started or stopped by the server. -/
structure SoundEvent where
  stop : Bool := true
  streamed : Bool := false
  origin : Option Vec3 := none
  entityNum : UInt32 := 0
  channel : UInt8 := 0
  soundIndex : UInt16 := 0
  volume : Option Single := none
  minDist : Option Single := none
  maxDist : Option Single := none
  pitch : Option Single := none
  deriving DecidableEq, Repr, Inhabited

namespace SoundEvent

def channelBits : Int32 := 7

def indexBits : Int32 := 9

end SoundEvent

namespace Wire

def writeOptionalFloat : Option Single → Wire Unit
  | some v => do writeBool true; writeFloat v
  | none => writeBool false

def readOptionalFloat : Wire (Option Single) := do
  if ← readBool then return some (← readFloat) else return none

end Wire

namespace Protocol

/-- Writes a sound event. -/
def writeSound (p : Protocol) (s : SoundEvent) : Wire Unit := do
  let bits := p.numberBits.toInt32
  Wire.writeBool s.stop
  if s.stop then
    Wire.writeBits s.entityNum.toUInt64.toInt64 bits
    Wire.writeBits s.channel.toUInt64.toInt64 SoundEvent.channelBits
  else
    Wire.writeBool s.streamed
    match s.origin with
    | some o =>
      Wire.writeBool true
      o.forM Wire.writeFloat
    | none => Wire.writeBool false
    Wire.writeBits s.entityNum.toUInt64.toInt64 bits
    Wire.writeBits s.channel.toUInt64.toInt64 SoundEvent.channelBits
    Wire.writeBits s.soundIndex.toUInt64.toInt64 SoundEvent.indexBits
    Wire.writeOptionalFloat s.volume
    Wire.writeOptionalFloat s.minDist
    Wire.writeOptionalFloat s.pitch
    if p.family = .expanded then Wire.writeOptionalFloat s.maxDist

def readSound (p : Protocol) : Wire SoundEvent := do
  let bits := p.numberBits.toInt32
  if ← Wire.readBool then
    let entityNum ← Wire.readBits bits
    let channel ← Wire.readBits SoundEvent.channelBits
    return { entityNum := entityNum.toUInt64.toUInt32, channel := channel.toUInt64.toUInt8 }
  let streamed ← Wire.readBool
  let origin ← if ← Wire.readBool then
      (do
        let x ← Wire.readFloat
        let y ← Wire.readFloat
        let z ← Wire.readFloat
        pure (some #v[x, y, z]))
    else pure none
  let entityNum ← Wire.readBits bits
  let channel ← Wire.readBits SoundEvent.channelBits
  let soundIndex ← Wire.readBits SoundEvent.indexBits
  let volume ← Wire.readOptionalFloat
  let minDist ← Wire.readOptionalFloat
  let pitch ← Wire.readOptionalFloat
  let maxDist ← if p.family = .expanded then Wire.readOptionalFloat else pure none
  return {
    stop := false
    streamed := streamed
    origin := origin
    entityNum := entityNum.toUInt64.toUInt32
    channel := channel.toUInt64.toUInt8
    soundIndex := soundIndex.toUInt64.toUInt16
    volume := volume
    minDist := minDist
    maxDist := maxDist
    pitch := pitch }

end Protocol

end Netcode
