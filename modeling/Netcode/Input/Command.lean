import Netcode.Protocol
import Netcode.Wire.Coord

set_option autoImplicit false

namespace Netcode

/-- One frame of player input: the server time it applies at, the button bits, the view angles
as fractions of a turn in 65536ths, and the three movement axes. -/
structure UserCmd where
  serverTime : Int32 := 0
  buttons : UInt16 := 0
  angles : Vector UInt16 3 := Vector.replicate 3 0
  forwardMove : Int8 := 0
  rightMove : Int8 := 0
  upMove : Int8 := 0
  deriving DecidableEq, Repr, Inhabited

namespace UserCmd

/-- The buttons that have a meaning: attack, secondary attack, run, use, lean left and right,
talk, any and mouse. -/
def knownButtons : UInt16 := 0x1FF

def buttonFlags (c : UserCmd) : UInt16 := c.buttons &&& knownButtons

def setViewAngles (c : UserCmd) (pitch yaw roll : Single) : UserCmd :=
  { c with angles := #v[Angle.toShort pitch, Angle.toShort yaw, Angle.toShort roll] }

def viewAngles (c : UserCmd) : Vector Single 3 :=
  c.angles.map Angle.ofShort

/-- Whether two commands carry the same input, whatever their times. -/
def sameInput (a b : UserCmd) : Bool :=
  a.angles = b.angles ∧ a.forwardMove = b.forwardMove ∧ a.rightMove = b.rightMove ∧
    a.upMove = b.upMove ∧ a.buttons = b.buttons

end UserCmd

structure UserEyes where
  ofs : Vector Int8 3 := Vector.replicate 3 0
  angles : Vector Single 2 := Vector.replicate 2 .zero
  deriving DecidableEq, Repr, Inhabited

namespace UserEyes

/-- Equality of values: offsets exactly, angles as numbers, so that a NaN differs from itself
and the two zeros agree. -/
def sameValue (a b : UserEyes) : Bool :=
  a.ofs = b.ofs ∧ (a.angles.toList.zip b.angles.toList).all fun (x, y) => x.eqValue y

end UserEyes

namespace Wire

/-- Writes `new` as a delta from `old` with `buttonBits` of buttons. -/
def writeDeltaUserCmd (buttonBits : Int32) (key : UInt32) (old new : UserCmd) : Wire Unit := do
  let dt := new.serverTime - old.serverTime
  if 0 ≤ dt ∧ dt < 256 then
    writeBool true
    writeBits dt.toInt64 8
  else
    writeBool false
    writeBits new.serverTime.toUInt32.toUInt64.toInt64 32
  if old.sameInput new then return ← writeBool false
  let key := key ^^^ new.serverTime.toUInt32
  writeBool true
  (old.angles.toList.zip new.angles.toList).forM fun (a, b) =>
    writeDeltaKey key a.toUInt32 b.toUInt32 16
  writeDeltaKey key old.forwardMove.toUInt8.toUInt32 new.forwardMove.toUInt8.toUInt32 8
  writeDeltaKey key old.rightMove.toUInt8.toUInt32 new.rightMove.toUInt8.toUInt32 8
  writeDeltaKey key old.upMove.toUInt8.toUInt32 new.upMove.toUInt8.toUInt32 8
  writeDeltaKey key old.buttons.toUInt32 new.buttons.toUInt32 buttonBits

def readDeltaUserCmd (buttonBits : Int32) (key : UInt32) (old : UserCmd) : Wire UserCmd := do
  let serverTime ← if ← readBool then
      (do let dt ← readBits 8; pure (old.serverTime + dt.toInt32))
    else (do let t ← readBits 32; pure t.toInt32)
  if !(← readBool) then return { old with serverTime := serverTime }
  let key := key ^^^ serverTime.toUInt32
  let angles ← old.angles.mapM fun a => readDeltaKey key a.toUInt32 16
  let forward ← readDeltaKey key old.forwardMove.toUInt8.toUInt32 8
  let right ← readDeltaKey key old.rightMove.toUInt8.toUInt32 8
  let up ← readDeltaKey key old.upMove.toUInt8.toUInt32 8
  let buttons ← readDeltaKey key old.buttons.toUInt32 buttonBits
  return {
    serverTime := serverTime
    buttons := buttons.toUInt16
    angles := angles.map (·.toUInt16)
    forwardMove := forward.toUInt8.toInt8
    rightMove := right.toUInt8.toInt8
    upMove := up.toUInt8.toInt8 }

/-- Writes, for each component of `new` in order, whether it differs from that of `old` and,
when it does, its value. -/
def writeChangedComponents {α : Type} {n : Nat} (same : α → α → Bool) (write : α → Wire Unit)
    (old new : Vector α n) : Wire Unit :=
  (old.toList.zip new.toList).forM fun (a, b) => do
    if same a b then writeBool false
    else
      writeBool true
      write b

def readChangedComponents {α : Type} {n : Nat} (read : Wire α) (old : Vector α n) :
    Wire (Vector α n) :=
  old.mapM fun a => do if ← readBool then read else pure a

/-- Writes the eyes as a delta from `old`: nothing but a clear bit when they are equal as values,
else a bit and, when changed, the value of each offset and angle. -/
def writeEyes (old new : UserEyes) : Wire Unit := do
  if old.sameValue new then return ← writeBool false
  writeBool true
  writeChangedComponents (· = ·) (fun o => writeBits o.toInt64 (-8)) old.ofs new.ofs
  writeChangedComponents (fun a b => a.bits = b.bits) writeFloat old.angles new.angles

def readEyes (old : UserEyes) : Wire UserEyes := do
  if !(← readBool) then return old
  let ofs ← readChangedComponents (do let v ← readBits (-8); pure v.toInt8) old.ofs
  let angles ← readChangedComponents readFloat old.angles
  return { ofs, angles }

end Wire

namespace Protocol

def writeUserCmd (p : Protocol) (key : UInt32) (old new : UserCmd) : Wire Unit :=
  Wire.writeDeltaUserCmd p.buttonBits.toInt32 key old new

def readUserCmd (p : Protocol) (key : UInt32) (old : UserCmd) : Wire UserCmd :=
  Wire.readDeltaUserCmd p.buttonBits.toInt32 key old

end Protocol

end Netcode
