set_option autoImplicit false

namespace Netcode

/-- A single-precision value, held as its IEEE 754 bit pattern. -/
structure Single where
  bits : UInt32
  deriving DecidableEq, Repr, Inhabited

namespace Single

def zero : Single := ⟨0⟩

def toFloat32 (x : Single) : Float32 :=
  Float32.ofBits x.bits

def ofFloat32 (x : Float32) : Single :=
  ⟨x.toBits⟩

/-- Whether the sign bit is set; true for `-0.0` and negative NaNs as well. -/
def signBit (x : Single) : Bool :=
  x.bits >>> 31 == 1

def exponentField (x : Single) : Nat :=
  ((x.bits >>> 23) &&& 0xFF).toNat

def fractionField (x : Single) : Nat :=
  (x.bits &&& 0x7FFFFF).toNat

def isNaN (x : Single) : Bool :=
  x.exponentField = 255 && x.fractionField ≠ 0

def isInfinite (x : Single) : Bool :=
  x.exponentField = 255 && x.fractionField = 0

/-- Equality of values: NaN equals nothing, and the two zeros are equal. -/
def eqValue (x y : Single) : Bool :=
  !x.isNaN && !y.isNaN && (x.bits = y.bits || (x.bits <<< 1 = 0 && y.bits <<< 1 = 0))

/-- The magnitude of a finite value is `significand * 2 ^ (scaleExponent - 150)`; the
significand carries the hidden bit of normal values. -/
def significand (x : Single) : Nat :=
  if x.exponentField = 0 then x.fractionField else x.fractionField + Nat.pow 2 23

/-- The exponent that goes with `significand`: subnormals share the exponent of the smallest
normal values. -/
def scaleExponent (x : Single) : Nat :=
  max x.exponentField 1

/-- The integer part of a finite value, rounded toward zero; `none` for NaN and infinities. -/
def truncate? (x : Single) : Option Int :=
  if x.exponentField = 255 then none
  else
    let e := x.scaleExponent
    let magnitude : Nat :=
      if 150 ≤ e then x.significand * Nat.pow 2 (e - 150) else x.significand / Nat.pow 2 (150 - e)
    some (if x.signBit then -(magnitude : Int) else magnitude)

/-- Conversion to an integer of the range `[lo, hi]`, rounding toward zero and saturating:
NaN gives 0, and a value beyond a bound, an infinity included, gives that bound. -/
def toIntClamped (x : Single) (lo hi : Int) : Int :=
  if x.isNaN then 0
  else match x.truncate? with
    | some n => max lo (min hi n)
    | none => if x.signBit then lo else hi

def toInt32Sat (x : Single) : Int32 :=
  Int32.ofInt (x.toIntClamped (-Int.pow 2 31) (Int.pow 2 31 - 1))

def toInt64Sat (x : Single) : Int64 :=
  Int64.ofInt (x.toIntClamped (-Int.pow 2 63) (Int.pow 2 63 - 1))

def toUInt32Sat (x : Single) : UInt32 :=
  UInt32.ofNat (x.toIntClamped 0 (Int.pow 2 32 - 1)).toNat

def toUInt16Sat (x : Single) : UInt16 :=
  UInt16.ofNat (x.toIntClamped 0 (Int.pow 2 16 - 1)).toNat

def ofUInt32 (n : UInt32) : Single :=
  ofFloat32 n.toFloat32

def ofUInt64 (n : UInt64) : Single :=
  ofFloat32 n.toFloat32

def ofInt32 (n : Int32) : Single :=
  if n < 0 then ⟨(ofUInt32 (UInt32.ofNat n.toInt.natAbs)).bits ||| 0x80000000⟩
  else ofUInt32 n.toUInt32

def ofInt64 (n : Int64) : Single :=
  if n < 0 then ⟨(ofUInt64 (UInt64.ofNat n.toInt.natAbs)).bits ||| 0x80000000⟩
  else ofUInt64 n.toUInt64

/-- Rounds halves away from zero. Magnitudes below one half become a zero of the same sign;
magnitudes from `2 ^ 23`, infinities and NaN come back unchanged. -/
def roundHalfAway (x : Single) : Single :=
  let e := x.exponentField
  if 150 ≤ e then x
  else if e < 126 then ⟨x.bits &&& 0x80000000⟩
  else
    let shift := 150 - e
    let magnitude := (x.significand + Nat.pow 2 (shift - 1)) / Nat.pow 2 shift
    let rounded := ofUInt32 (UInt32.ofNat magnitude)
    if x.signBit then ⟨rounded.bits ||| 0x80000000⟩ else rounded

def lt (x y : Single) : Bool :=
  x.toFloat32 < y.toFloat32

/-- The larger of two values; a NaN operand is ignored in favour of the other one. -/
def maxNum (x y : Single) : Single :=
  if x.isNaN then y else if y.isNaN then x else if x.lt y then y else x

def minNum (x y : Single) : Single :=
  if x.isNaN then y else if y.isNaN then x else if y.lt x then y else x

def add (x y : Single) : Single := ofFloat32 (x.toFloat32 + y.toFloat32)

def sub (x y : Single) : Single := ofFloat32 (x.toFloat32 - y.toFloat32)

def mul (x y : Single) : Single := ofFloat32 (x.toFloat32 * y.toFloat32)

def div (x y : Single) : Single := ofFloat32 (x.toFloat32 / y.toFloat32)

end Single

end Netcode
