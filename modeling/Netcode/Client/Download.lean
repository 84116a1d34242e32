import Netcode.Wire.Message

set_option autoImplicit false

namespace Netcode

/-- What one block brought. -/
inductive DownloadEvent where
  | progress (ack : String)
  | complete (ack : String) (data : List UInt8)
  | failed (reason : String)
  deriving DecidableEq, Repr

structure Download where
  name : String
  block : UInt16 := 0
  size : Option Nat := none
  data : List UInt8 := []
  deriving DecidableEq, Repr, Inhabited

namespace Download

def maxBlockLen : Int := 49152

def new (name : String) : Download :=
  { name := name }

def request (d : Download) : String :=
  "download " ++ d.name

def received (d : Download) : Nat :=
  d.data.length

def readChunk : Wire (List UInt8) := do
  let len ← Wire.readShort
  if len < 0 ∨ len.toInt > maxBlockLen then
    Wire.fail (.invalidData s!"bad download block size {len}")
  Wire.readData len.toInt.toNat

/-- Takes the chunk of block `block`: the expected block is appended and acknowledged, an empty one
completes the file, and any other block is refused. -/
def takeChunk (block : UInt16) (chunk : List UInt8) : WireWith Download DownloadEvent := do
  let d ← WireWith.value
  if block ≠ d.block then
    WireWith.wire (Wire.fail (.downloadBlock d.block block))
  let next := d.block + 1
  let ack := s!"nextdl {next}"
  if chunk.isEmpty then
    WireWith.update fun d => { d with data := [], block := next }
    return .complete ack (d.data ++ chunk)
  WireWith.update fun d => { d with data := d.data ++ chunk, block := next }
  return .progress ack

/-- Reads one block. The whole block is read before its number is checked. -/
def receiveBlock : WireWith Download DownloadEvent := do
  let block := (← WireWith.wire Wire.readShort).toUInt16
  if block = 0 then
    let size ← WireWith.wire Wire.readLong
    if size < 0 then
      return .failed (← WireWith.wire Wire.readString)
    WireWith.update fun d => { d with size := some size.toInt.toNat }
  takeChunk block (← WireWith.wire readChunk)

end Download

/-- Writes one block: its number, on the first block the size and, for a refusal, the reason,
then the length and the bytes. -/
def Wire.writeDownloadBlock (block : UInt16) (size : Int32) (chunk : List UInt8)
    (error : Option String) : Wire Unit := do
  Wire.writeShort block.toInt16
  if block = 0 then
    Wire.writeLong size
    if size < 0 then
      Wire.writeString (error.getD "")
      return
  Wire.writeShort (Int16.ofInt chunk.length)
  Wire.writeData chunk

end Netcode
