import Netcode.Wire.Stream
import Netcode.Text.Utf8
import Netcode.Float.Single

set_option autoImplicit false

namespace Netcode

def lowMask (n : UInt32) : UInt64 :=
  if n ≥ 64 then ~~~0 else ((1 : UInt64) <<< n.toUInt64) - 1

/-- Bits waiting to be written or already read but not yet used: the low `count` bits of
`acc`, oldest first. -/
structure BitPacker where
  acc : UInt64 := 0
  count : UInt32 := 0
  deriving DecidableEq, Repr

namespace BitPacker

def push (p : BitPacker) (chunk : UInt64) (n : UInt32) : BitPacker :=
  ⟨p.acc ||| ((chunk &&& lowMask n) <<< p.count.toUInt64), p.count + n⟩

def shiftByte (p : BitPacker) : BitPacker :=
  ⟨p.acc >>> 8, p.count - 8⟩

def absorb (p : BitPacker) (b : UInt8) : BitPacker :=
  ⟨p.acc ||| (b.toUInt64 <<< p.count.toUInt64), p.count + 8⟩

def take (p : BitPacker) (n : UInt32) : UInt64 × BitPacker :=
  (p.acc &&& lowMask n, ⟨p.acc >>> n.toUInt64, p.count - n⟩)

end BitPacker

/-- How values are laid out: packed bit by bit, or in whole little-endian bytes. -/
inductive CodecMode where
  | bitPacked
  | byteAligned
  deriving DecidableEq, Repr

/-- A message being read or written: its stream, the bit accumulator and the layout. -/
structure Message where
  stream : ByteStream
  packer : BitPacker := {}
  mode : CodecMode := .bitPacked

/-- A step that reads or writes a message and may fail; a failure keeps the message as the
step left it. -/
abbrev Wire := ExceptT NetError (StateM Message)

namespace Message

def onStream (stream : ByteStream) : Message :=
  { stream }

def run {α : Type} (m : Message) (step : Wire α) : Except NetError α × Message :=
  (step.run).run m

end Message

namespace Wire

def fail {α : Type} (e : NetError) : Wire α :=
  throw e

def bytePosition : Wire Nat :=
  return (← get).stream.pos

def mode : Wire CodecMode :=
  return (← get).mode

def pendingBits : Wire UInt32 :=
  return (← get).packer.count

/-- A bound on the rounds of a loop that reads at least a byte per round: the bytes left in the
stream, the bytes the accumulator can hold, and one more for the read that fails. -/
def readBudget : Wire Nat :=
  return (← get).stream.remaining + 9

def ofExcept {α : Type} : Except NetError α → Wire α
  | .ok a => pure a
  | .error e => fail e

/-- Writes bytes to the stream, all of them or, if they do not fit, none. -/
def putBytes (src : List UInt8) : Wire Unit :=
  ExceptT.mk <| modifyGet fun ⟨s, p, mode⟩ =>
    if s.canWrite src.length then (.ok (), ⟨s.putAll src, p, mode⟩)
    else (.error (.streamOverflow .writing), ⟨s, p, mode⟩)

def getBytes (n : Nat) : Wire (List UInt8) :=
  ExceptT.mk <| modifyGet fun ⟨s, p, mode⟩ =>
    if s.canRead n then
      let (bytes, s') := s.take n
      (.ok bytes, ⟨s', p, mode⟩)
    else (.error (.streamOverflow .reading), ⟨s, p, mode⟩)

def emitByte : Wire Unit :=
  ExceptT.mk <| modifyGet fun ⟨s, p, mode⟩ =>
    if s.canWrite 1 then (.ok (), ⟨s.putAll [p.acc.toUInt8], p.shiftByte, mode⟩)
    else (.error (.streamOverflow .writing), ⟨s, p, mode⟩)

def absorbByte : Wire Unit :=
  ExceptT.mk <| modifyGet fun ⟨s, p, mode⟩ =>
    if s.canRead 1 then (.ok (), ⟨{ s with pos := s.pos + 1 }, p.absorb s.peekByte, mode⟩)
    else (.error (.streamOverflow .reading), ⟨s, p, mode⟩)

def emitBytes : Nat → Wire Unit
  | 0 => pure ()
  | k + 1 => do emitByte; emitBytes k

def absorbBytes : Nat → Wire Unit
  | 0 => pure ()
  | k + 1 => do absorbByte; absorbBytes k

def pushChunk (chunk : UInt64) (n : UInt32) : Wire Unit := do
  modify fun m => { m with packer := m.packer.push chunk n }
  emitBytes ((← pendingBits).toNat / 8)

def takeChunk (n : UInt32) : Wire UInt64 := do
  let count ← pendingBits
  if count < n then absorbBytes (((n - count).toNat + 7) / 8)
  modifyGet fun m =>
    let (value, p) := m.packer.take n
    (value, { m with packer := p })

/-- Writes the low `bits` bits of `data`, least significant first, in chunks of at most 32. -/
def packBits (data : UInt64) (bits : UInt32) : Wire Unit := do
  if bits = 0 ∨ bits > 64 then fail (.badBits bits)
  if bits ≤ 32 then pushChunk data bits
  else
    pushChunk data 32
    pushChunk (data >>> 32) (bits - 32)

def unpackBits (bits : UInt32) : Wire UInt64 := do
  if bits = 0 ∨ bits > 64 then fail (.badBits bits)
  if bits ≤ 32 then takeChunk bits
  else
    let low ← takeChunk 32
    let high ← takeChunk (bits - 32)
    return low ||| (high <<< 32)

def littleEndian (v : UInt64) (k : Nat) : List UInt8 :=
  (List.range k).map fun i => (v >>> (8 * i).toUInt64).toUInt8

def ofLittleEndian (bytes : List UInt8) : UInt64 :=
  bytes.foldr (fun b acc => (acc <<< 8) ||| b.toUInt64) 0

def alignedWidth (bits : UInt32) : Bool :=
  bits = 8 ∨ bits = 16 ∨ bits = 32 ∨ bits = 64

def encode (data : UInt64) (bits : UInt32) : Wire Unit := do
  match ← mode with
  | .bitPacked => packBits data bits
  | .byteAligned =>
    if alignedWidth bits then putBytes (littleEndian data (bits.toNat / 8))
    else fail (.badBits bits)

def decode (bits : UInt32) : Wire UInt64 := do
  match ← mode with
  | .bitPacked => unpackBits bits
  | .byteAligned =>
    if alignedWidth bits then return ofLittleEndian (← getBytes (bits.toNat / 8))
    else fail (.badBits bits)

/-- Writes the accumulator's partial byte, if any, and empties it. If the byte does not fit,
the accumulator keeps it. -/
def flushBits : Wire Unit := do
  if (← pendingBits) > 0 then emitByte
  modify fun m => { m with packer := {} }

def align : Wire Unit :=
  modify fun m => { m with packer := {} }

def flush : Wire Unit := do
  match ← mode with
  | .bitPacked => flushBits
  | .byteAligned => pure ()

/-- Switches the layout. A writer completes its partial byte first, a reader drops it. -/
def setMode (target : CodecMode) (writing : Bool) : Wire Unit := do
  if (← mode) ≠ target then
    if writing then flushBits else align
    modify fun m => { m with mode := target }

/-- The magnitude of a signed width. The width of the least 32-bit integer is `2 ^ 31`. -/
def widthOf (bits : Int32) : UInt32 :=
  (if bits < 0 then -bits else bits).toUInt32

def writeBits (value : Int64) (bits : Int32) : Wire Unit :=
  encode value.toUInt64 (widthOf bits)

def extendSign (bits : Int32) (raw : UInt64) : Int64 :=
  let width := widthOf bits
  if bits < 0 ∧ width < 64 ∧ raw &&& ((1 : UInt64) <<< (width - 1).toUInt64) ≠ 0 then
    (raw ||| ~~~(lowMask width)).toInt64
  else raw.toInt64

/-- Reads `|bits|` bits; a negative width reads a two's-complement value and extends its
sign. -/
def readBits (bits : Int32) : Wire Int64 := do
  return extendSign bits (← decode (widthOf bits))

def writeBool (b : Bool) : Wire Unit :=
  writeBits (if b then 1 else 0) 1

def readBool : Wire Bool :=
  return (← readBits 1) ≠ 0

def writeByte (b : UInt8) : Wire Unit :=
  writeBits b.toUInt64.toInt64 8

def readByte : Wire UInt8 :=
  return (← readBits 8).toUInt64.toUInt8

def writeShort (v : Int16) : Wire Unit :=
  writeBits v.toUInt16.toUInt64.toInt64 16

def readShort : Wire Int16 :=
  return (← readBits 16).toUInt64.toUInt16.toInt16

def writeLong (v : Int32) : Wire Unit :=
  writeBits v.toUInt32.toUInt64.toInt64 32

def readLong : Wire Int32 :=
  return (← readBits 32).toUInt64.toUInt32.toInt32

def writeFloat (x : Single) : Wire Unit :=
  writeBits x.bits.toUInt64.toInt64 32

def readFloat : Wire Single :=
  return ⟨(← readBits 32).toUInt64.toUInt32⟩

def writeData : List UInt8 → Wire Unit
  | [] => pure ()
  | b :: rest => do writeByte b; writeData rest

def readData : Nat → Wire (List UInt8)
  | 0 => pure []
  | n + 1 => do
    let b ← readByte
    let rest ← readData n
    return b :: rest

def maxStringChars : Nat := 1024

def bigInfoString : Nat := 8192

/-- Writes bytes and a terminating zero. A string of `max` bytes or more is refused. -/
def writeRawString (s : List UInt8) (max : Nat) : Wire Unit := do
  if s.length ≥ max then fail (.stringTooLong max)
  writeData s
  writeByte 0

/-- Reads bytes up to a zero, with room for `room` more before the limit `max` is reached;
a byte beyond the room fails. The bytes read so far are `acc`, newest first. -/
def readUntilZero (max : Nat) (acc : List UInt8) : Nat → Wire (List UInt8)
  | 0 => do
    let c ← readByte
    if c = 0 then return acc.reverse else fail (.stringTooLong max)
  | room + 1 => do
    let c ← readByte
    if c = 0 then return acc.reverse else readUntilZero max (c :: acc) room

def readRawString (max : Nat) : Wire (List UInt8) :=
  readUntilZero max [] max

def writeString (s : String) : Wire Unit :=
  writeRawString s.toUTF8.toList maxStringChars

def readString : Wire String :=
  return Utf8.decodeLossy (← readRawString maxStringChars)

def floatIntBits : UInt32 := 13

def floatIntBias : Int32 := 4096

/-- Writes `+0.0` as one zero bit, an integral value in `[-4096, 4095]` other than `-0.0` as
`10` and 13 biased bits, and anything else as `11` and its 32-bit pattern. -/
def writeFloatCompressed (x : Single) : Wire Unit := do
  let trunc := x.toInt32Sat
  if x.bits = 0 then writeBool false
  else if (Single.ofInt32 trunc).eqValue x ∧ 0 ≤ trunc + floatIntBias ∧
      trunc + floatIntBias < 8192 ∧ ¬(trunc = 0 ∧ x.signBit) then
    writeBool true
    writeBool false
    writeBits (trunc + floatIntBias).toInt64 13
  else
    writeBool true
    writeBool true
    writeFloat x

def readFloatCompressed : Wire Single := do
  if !(← readBool) then return .zero
  if !(← readBool) then
    let biased ← readBits 13
    return Single.ofInt32 (biased.toInt32 - floatIntBias)
  else readFloat

/-- Writes `to` as a change from `from`: a zero bit if equal, else a one bit and `to` XORed
with `key` in `bits` bits. -/
def writeDeltaKey (key old new : UInt32) (bits : Int32) : Wire Unit := do
  if old = new then writeBool false
  else
    writeBool true
    writeBits (new ^^^ key).toUInt64.toInt64 bits

def readDeltaKey (key old : UInt32) (bits : Int32) : Wire UInt32 := do
  if !(← readBool) then return old
  let width := widthOf bits
  let keyMask : UInt32 := if width ≥ 32 then ~~~0 else ((1 : UInt32) <<< width) - 1
  let raw ← readBits width.toInt32
  return (raw.toUInt64.toUInt32 ^^^ (key &&& keyMask)) &&& keyMask

end Wire

/-- A message step that also updates a value of its own; a failure keeps both the message and
the value as the step left them. -/
abbrev WireWith (σ : Type) := ExceptT NetError (StateM (Message × σ))

namespace WireWith

def wire {σ α : Type} (w : Wire α) : WireWith σ α :=
  ExceptT.mk (modifyGet fun (m, s) => let (r, m) := m.run w; (r, (m, s)))

def value {σ : Type} : WireWith σ σ :=
  return (← get).2

def update {σ : Type} (f : σ → σ) : WireWith σ Unit :=
  modify fun (m, s) => (m, f s)

def run {σ α : Type} (step : WireWith σ α) (m : Message) (s : σ) :
    Except NetError α × Message × σ :=
  (ExceptT.run step).run (m, s)

end WireWith

namespace Message

def ofBytes (bytes : List UInt8) : Message :=
  onStream (ByteStream.growing ⟨bytes.toArray⟩)

/-- Runs a writing step on an empty message and flushes it: the outcome and the bytes written,
as far as they got. -/
def encode {α : Type} (w : Wire α) : Except NetError α × List UInt8 :=
  let (r, m) := (onStream ByteStream.growing).run (do let a ← w; Wire.flush; pure a)
  (r, m.stream.bytes.toList)

end Message

end Netcode
