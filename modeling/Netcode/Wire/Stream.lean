import Netcode.Error

set_option autoImplicit false

namespace Netcode

/-- The point a seek offset is measured from. -/
inductive SeekBase where
  | start
  | cursor
  | finish
  deriving DecidableEq, Repr

/-- A byte buffer with a cursor. With a `capacity`, writes may not reach past it and seeks may
not leave the data; without one, both extend the data with zero bytes. -/
structure ByteStream where
  bytes : ByteArray
  pos : Nat
  capacity : Option Nat

namespace ByteStream

def growing (data : ByteArray := .empty) : ByteStream :=
  ⟨data, 0, none⟩

def fixedFull (data : ByteArray) : ByteStream :=
  ⟨data, 0, some data.size⟩

def fixedEmpty (capacity : Nat) : ByteStream :=
  ⟨.empty, 0, some capacity⟩

def length (s : ByteStream) : Nat :=
  s.bytes.size

def remaining (s : ByteStream) : Nat :=
  s.length - s.pos

def putByte (bytes : ByteArray) (i : Nat) (b : UInt8) : ByteArray :=
  if h : i < bytes.size then bytes.set i b h else bytes.push b

def padTo (bytes : ByteArray) (n : Nat) : ByteArray :=
  if bytes.size < n then bytes ++ ⟨Array.replicate (n - bytes.size) 0⟩ else bytes

def canWrite (s : ByteStream) (n : Nat) : Bool :=
  match s.capacity with
  | some cap => s.pos + n ≤ cap
  | none => true

/-- Writes byte after byte from the cursor. The cursor never passes the length, so each byte
lands in place or right after the end. -/
def putAll (s : ByteStream) : List UInt8 → ByteStream
  | [] => s
  | b :: rest => putAll ⟨putByte s.bytes s.pos b, s.pos + 1, s.capacity⟩ rest

def write (s : ByteStream) (src : List UInt8) : Except NetError ByteStream :=
  if s.canWrite src.length then .ok (s.putAll src) else .error (.streamOverflow .writing)

def canRead (s : ByteStream) (n : Nat) : Bool :=
  s.pos + n ≤ s.length

def take (s : ByteStream) (n : Nat) : List UInt8 × ByteStream :=
  ((s.bytes.extract s.pos (s.pos + n)).toList, { s with pos := s.pos + n })

def read (s : ByteStream) (n : Nat) : Except NetError (List UInt8 × ByteStream) :=
  if s.canRead n then .ok (s.take n) else .error (.streamOverflow .reading)

def peekByte (s : ByteStream) : UInt8 :=
  if h : s.pos < s.bytes.size then s.bytes.get s.pos h else 0

/-- Where a seek lands, if it may: not before the start, nor past the length of a fixed stream; the
target is a signed 64-bit sum, so one that wraps is refused too. -/
def seekTarget? (s : ByteStream) (offset : Int64) (base : SeekBase) : Option Nat :=
  let origin : Int64 := match base with
    | .start => 0
    | .cursor => s.pos.toInt64
    | .finish => s.length.toInt64
  let target := origin + offset
  if target < 0 then none
  else match s.capacity with
    | some _ => if target.toNatClampNeg ≤ s.length then some target.toNatClampNeg else none
    | none => some target.toNatClampNeg

/-- Moves the cursor to `target`, padding a growing stream with zeros up to it. -/
def moveTo (s : ByteStream) (target : Nat) : ByteStream :=
  match s.capacity with
  | some _ => { s with pos := target }
  | none => { s with bytes := padTo s.bytes target, pos := target }

def seek (s : ByteStream) (offset : Int64) (base : SeekBase) : Except NetError ByteStream :=
  match s.seekTarget? offset base with
  | some target => .ok (s.moveTo target)
  | none => .error (.streamOverflow .reading)

end ByteStream

end Netcode
