import Netcode.Wire.Message
import Netcode.Wire.Coord

set_option autoImplicit false

namespace Netcode

/-- How a float field's value is mapped to bits. -/
inductive FieldKind where
  /-- An integral value in `[-4096, 4095]` as 13 biased bits, anything else whole. -/
  | regular
  | angle
  | animTime
  | animWeight
  | scale
  | alpha
  | coord
  | velocity
  deriving DecidableEq, Repr

namespace FieldKind

def factor : FieldKind → Single
  | .animTime | .scale => Single.ofNat 100
  | .animWeight | .alpha => Single.ofNat 255
  | .velocity => Single.ofNat 8
  | _ => Single.ofNat 1

end FieldKind

inductive FieldAccess (S : Type) where
  | int (get : S → Int32) (set : S → Int32 → S)
  | float (get : S → Single) (set : S → Single → S)

/-- A member of a state as the wire carries it: its path, its width (negative for signed
integers and signed fixed point; unused by regular floats) and its kind. -/
structure NetField (S : Type) where
  name : String
  bits : Int32
  kind : FieldKind
  access : FieldAccess S

namespace NetField

variable {S : Type}

def int (name : String) (bits : Int32) (get : S → Int32) (set : S → Int32 → S) : NetField S :=
  ⟨name, bits, .regular, .int get set⟩

def float (name : String) (kind : FieldKind) (bits : Int32) (get : S → Single)
    (set : S → Single → S) : NetField S :=
  ⟨name, bits, kind, .float get set⟩

def setComponent {α : Type} {n : Nat} (v : Vector α n) (i : Fin n) (a : α) : Vector α n :=
  v.set i a i.isLt

def intComponent {n : Nat} (name : String) (bits : Int32) (get : S → Vector Int32 n)
    (set : S → Vector Int32 n → S) (i : Fin n) : NetField S :=
  int (name ++ "[" ++ toString i.val ++ "]") bits (fun s => (get s).get i)
    (fun s v => set s (setComponent (get s) i v))

def floatComponents {n : Nat} (name : String) (kind : FieldKind) (bits : Int32)
    (get : S → Vector Single n) (set : S → Vector Single n → S) : List (NetField S) :=
  (List.finRange n).map fun i =>
    float (name ++ "[" ++ toString i.val ++ "]") kind bits (fun s => (get s).get i)
      (fun s v => set s (setComponent (get s) i v))

/-- Whether the member differs between two states: integers by value, floats by bit pattern. -/
def differs (f : NetField S) (a b : S) : Bool :=
  match f.access with
  | .int get _ => get a ≠ get b
  | .float get _ => (get a).bits ≠ (get b).bits

def copy (f : NetField S) (src dst : S) : S :=
  match f.access with
  | .int get set => set dst (get src)
  | .float get set => set dst (get src)

def width (f : NetField S) : Int32 :=
  if f.bits < 0 then -f.bits else f.bits

end NetField

/-- An ordered list of fields. Reordering it changes the wire format. With `zeroShortcut`,
every changed value is preceded by a bit telling whether it is zero, and a zero is not sent. -/
structure FieldTable (S : Type) where
  fields : List (NetField S)
  zeroShortcut : Bool

namespace FieldTable

variable {S : Type}

/-- The number of fields up to and including the last one that differs between two states. -/
def lastChanged (t : FieldTable S) (a b : S) : Nat :=
  (t.fields.zipIdx.filter fun (f, _) => f.differs a b).foldl (fun _ (_, i) => i + 1) 0

def copyAll (t : FieldTable S) (src dst : S) : S :=
  t.fields.foldl (fun acc f => f.copy src acc) dst

end FieldTable

namespace Wire

def regularBias : Int32 := 4096

/-- Writes a float in the form its field's kind gives it. -/
def writeFloatValue (bits : Int32) (kind : FieldKind) (v : Single) : Wire Unit := do
  let width : Int32 := if bits < 0 then -bits else bits
  match kind with
  | .regular =>
    let trunc := v.toInt32Sat
    if (Single.ofInt32 trunc).eqValue v ∧ 0 ≤ trunc + regularBias ∧
        trunc + regularBias < 8192 ∧ v.bits ≠ 0x80000000 then
      writeBool false
      writeBits (trunc + regularBias).toInt64 13
    else
      writeBool true
      writeFloat v
  | .angle => writeBits (Angle.pack v width.toUInt32).toUInt64.toInt64 width
  | .coord => writeBits ((NetCoord.withBits width.toUInt32).pack v).toUInt64.toInt64 width
  | .animWeight | .alpha =>
    let top := Single.ofInt64 (((1 : Int64) <<< width.toInt64) - 1)
    let q := (((v.mul kind.factor).roundHalfAway).maxNum .zero).minNum top
    writeBits q.toInt64Sat width
  | .animTime | .scale | .velocity =>
    let (lo, hi) : Int64 × Int64 :=
      if bits < 0 then (-((1 : Int64) <<< (width - 1).toInt64), ((1 : Int64) <<< (width - 1).toInt64) - 1)
      else (0, ((1 : Int64) <<< width.toInt64) - 1)
    let q := ((v.mul kind.factor).roundHalfAway).toInt64Sat
    let q := if q < lo then lo else q
    let q := if hi < q then hi else q
    writeBits q bits

def readFloatValue (bits : Int32) (kind : FieldKind) : Wire Single := do
  let width : Int32 := if bits < 0 then -bits else bits
  match kind with
  | .regular =>
    if ← readBool then readFloat
    else return Single.ofInt32 ((← readBits 13).toInt32 - regularBias)
  | .angle => return Angle.unpack (← readBits width).toUInt64.toUInt32 width.toUInt32
  | .coord => return (NetCoord.withBits width.toUInt32).unpack (← readBits width).toUInt64.toUInt32
  | .animWeight | .alpha => return (Single.ofInt64 (← readBits width)).div kind.factor
  | .animTime | .scale | .velocity => return (Single.ofInt64 (← readBits bits)).div kind.factor

def writeField {S : Type} (zeroShortcut : Bool) (f : NetField S) (target : S) : Wire Unit := do
  match f.access with
  | .int get _ =>
    let v := get target
    if zeroShortcut then
      if v = 0 then return ← writeBool false
      writeBool true
    writeBits v.toInt64 f.bits
  | .float get _ =>
    let v := get target
    if zeroShortcut then
      if v.bits = 0 then return ← writeBool false
      writeBool true
    writeFloatValue f.bits f.kind v

def readField {S : Type} (zeroShortcut : Bool) (f : NetField S) (target : S) : Wire S := do
  let nonzero ← if zeroShortcut then readBool else pure true
  match f.access with
  | .int _ set =>
    if nonzero then
      let v ← readBits f.bits
      return set target v.toInt32
    else return set target 0
  | .float _ set =>
    if nonzero then
      let v ← readFloatValue f.bits f.kind
      return set target v
    else return set target Single.zero

def writeChanges {S : Type} (zeroShortcut : Bool) (base target : S) : List (NetField S) → Wire Unit
  | [] => pure ()
  | f :: rest => do
    if f.differs base target then
      writeBool true
      writeField zeroShortcut f target
    else writeBool false
    writeChanges zeroShortcut base target rest

def readChanges {S : Type} (zeroShortcut : Bool) (target : S) : List (NetField S) → Wire S
  | [] => pure target
  | f :: rest => do
    let target ← if ← readBool then readField zeroShortcut f target else pure target
    readChanges zeroShortcut target rest

/-- Writes the delta from `base` to `target`. Without `force`, an unchanged state writes nothing
and answers false. -/
def writeDeltaFields {S : Type} (t : FieldTable S) (base target : S) (force : Bool) : Wire Bool := do
  let lc := t.lastChanged base target
  if lc = 0 ∧ ¬force then return false
  writeByte lc.toUInt8
  writeChanges t.zeroShortcut base target (t.fields.take lc)
  return true

/-- Reads a delta against `base`. A field count beyond the table is refused. -/
def readDeltaFields {S : Type} (t : FieldTable S) (base : S) : Wire S := do
  let lc := (← readByte).toNat
  if lc > t.fields.length then fail (.badFieldCount lc t.fields.length)
  readChanges t.zeroShortcut base (t.fields.take lc)

end Wire

end Netcode
