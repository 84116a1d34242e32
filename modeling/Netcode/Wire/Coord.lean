import Netcode.Float.Single

set_option autoImplicit false

namespace Netcode

namespace Single

def ofNat (n : Nat) : Single :=
  ofUInt32 (UInt32.ofNat n)

end Single

/-- A fixed-point coordinate format: `bits` bits over the range `[min, max]`. -/
structure NetCoord where
  bits : UInt32
  min : Int32 := -8192
  max : Int32 := 8192
  deriving DecidableEq, Repr

namespace NetCoord

def withBits (bits : UInt32) : NetCoord :=
  { bits }

def steps (c : NetCoord) : UInt64 :=
  (1 : UInt64) <<< c.bits.toUInt64

def precision (c : NetCoord) : Single :=
  (Single.ofUInt64 c.steps).div (Single.ofInt32 (c.max - c.min))

def step (c : NetCoord) : Single :=
  (Single.ofNat 1).div c.precision

/-- The number of steps from `min` to `v`, rounded half away from zero; NaN and values below
the range give 0, and values above it the largest number of steps. -/
def pack (c : NetCoord) (v : Single) : UInt32 :=
  let maxPacked := Single.ofUInt64 (c.steps - 1)
  let scaled := ((v.sub (Single.ofInt32 c.min)).mul c.precision).roundHalfAway
  if scaled.isNaN || scaled.lt Single.zero then 0
  else if maxPacked.lt scaled then maxPacked.toUInt32Sat
  else scaled.toUInt32Sat

def unpack (c : NetCoord) (packed : UInt32) : Single :=
  ((Single.ofUInt32 packed).div c.precision).add (Single.ofInt32 c.min)

end NetCoord

namespace Angle

def fullTurn : Single := Single.ofNat 360

def toByte (a : Single) : UInt8 :=
  ((a.mul (Single.ofNat 256)).div fullTurn).toInt32Sat.toUInt32.toUInt8

def ofByte (b : UInt8) : Single :=
  (Single.ofUInt32 b.toUInt32).mul (fullTurn.div (Single.ofNat 256))

def toShort (a : Single) : UInt16 :=
  ((a.mul (Single.ofNat 65536)).div fullTurn).toInt32Sat.toUInt32.toUInt16

def ofShort (s : UInt16) : Single :=
  (Single.ofUInt32 s.toUInt32).mul (fullTurn.div (Single.ofNat 65536))

/-- An angle as `2 ^ bits`ths of a turn, wrapping around; shift amounts are taken modulo 64. -/
def pack (a : Single) (bits : UInt32) : UInt32 :=
  let steps := Single.ofUInt64 ((1 : UInt64) <<< bits.toUInt64)
  let mask := ((1 : Int64) <<< bits.toUInt64.toInt64) - 1
  (((a.mul steps).div fullTurn).toInt64Sat &&& mask).toUInt64.toUInt32

def unpack (packed : UInt32) (bits : UInt32) : Single :=
  (Single.ofUInt32 packed).mul
    (fullTurn.div (Single.ofUInt64 ((1 : UInt64) <<< bits.toUInt64)))

end Angle

end Netcode
