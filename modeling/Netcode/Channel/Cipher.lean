set_option autoImplicit false

namespace Netcode.Cipher

/-- The command character that enters the key: characters above 127 and `%` count as `.`. -/
def keyChar (c : UInt8) : UInt8 :=
  if c > 127 ∨ c = 37 then 46 else c

/-- One step of the running key at offset `i`: the command position wraps at the command's end or a
zero byte, and the key absorbs the character there, shifted by the parity of `i`. -/
def step (command : Array UInt8) (key : UInt32) (index i : Nat) : UInt32 × Nat :=
  let index := if index ≥ command.size ∨ command[index]? = some 0 then 0 else index
  let c := keyChar (command[index]?.getD 0)
  (key ^^^ (c.toUInt32 <<< (i % 2).toUInt32), index + 1)

def applyAt (command : Array UInt8) (acc : UInt32 × Nat × Array UInt8) (i : Nat) :
    UInt32 × Nat × Array UInt8 :=
  let next := step command acc.1 acc.2.1 i
  (next.1, next.2, acc.2.2.modify i (· ^^^ next.1.toUInt8))

/-- XORs the bytes of `data` from offset `first` on, in place and one offset after another, with
the running key of `seed` and `command`. -/
def apply (seed : UInt32) (command : List UInt8) (data : List UInt8) (first : Nat) :
    List UInt8 :=
  ((List.range' first (data.length - first)).foldl (applyAt command.toArray)
    (seed, 0, data.toArray)).2.2.toList

def outgoing (challenge serverId messageAck : UInt32) (command data : List UInt8)
    (first : Nat) : List UInt8 :=
  apply (challenge ^^^ serverId ^^^ messageAck) command data first

def incoming (challenge sequence : UInt32) (command data : List UInt8) (first : Nat) :
    List UInt8 :=
  apply (challenge ^^^ sequence) command data first

/-- First payload byte that the outgoing transform covers: the server id, the message
acknowledge and the command acknowledge travel in the clear. -/
def encodeStart : Nat := 12

/-- Bytes of an incoming message, after its sequence number, that travel in the clear: the
reliable acknowledge. -/
def decodeStart : Nat := 4

def scrambleTable : Array UInt8 := #[
  0x00, 0x2a, 0x8b, 0xec, 0x4e, 0xaf, 0x11, 0x72, 0xd3, 0x35, 0x96, 0xf7, 0x59, 0xba, 0x1c, 0x7d,
  0xde, 0x40, 0xa1, 0x03, 0x64, 0xc5, 0x27, 0x88, 0xe9, 0x4b, 0xac, 0x0e, 0x6f, 0xd0, 0x32, 0x93,
  0xf4, 0x56, 0xb7, 0x19, 0x7a, 0xdb, 0x3d, 0x9e, 0xff, 0x61, 0xc2, 0x24, 0x85, 0xe6, 0x48, 0xa9,
  0x0b, 0x6c, 0xcd, 0x2f, 0x90, 0xf1, 0x53, 0xb4, 0x16, 0x77, 0xd8, 0x3a, 0x9b, 0xfc, 0x5e, 0xbf,
  0x21, 0x82, 0xe3, 0x45, 0xa6, 0x08, 0x69, 0xca, 0x2c, 0x8d, 0xee, 0x50, 0xb1, 0x13, 0x74, 0xd5,
  0x37, 0x98, 0xf9, 0x5b, 0xbc, 0x1e, 0x7f, 0xe0, 0x42, 0xa3, 0x05, 0x66, 0xc7, 0x29, 0x8a, 0xeb,
  0x4d, 0xae, 0x10, 0x71, 0xd2, 0x34, 0x95, 0xf6, 0x58, 0xb9, 0x1b, 0x7c, 0xdd, 0x3f, 0xa0, 0x02,
  0x63, 0xc4, 0x26, 0x87, 0xe8, 0x4a, 0xab, 0x0d, 0x6e, 0xcf, 0x31, 0x92, 0xf3, 0x55, 0xb6, 0x18,
  0x79, 0xda, 0x3c, 0x9d, 0xfe, 0x60, 0xc1, 0x23, 0x84, 0xe5, 0x47, 0xa8, 0x0a, 0x6b, 0xcc, 0x2e,
  0x8f, 0xf0, 0x52, 0xb3, 0x15, 0x76, 0xd7, 0x39, 0x9a, 0xfb, 0x5d, 0xbe, 0x20, 0x81, 0xe2, 0x44,
  0xa5, 0x07, 0x68, 0xc9, 0x2b, 0x8c, 0xed, 0x4f, 0xb0, 0x12, 0x73, 0xd4, 0x36, 0x97, 0xf8, 0x5a,
  0xbb, 0x1d, 0x7e, 0xdf, 0x41, 0xa2, 0x04, 0x65, 0xc6, 0x28, 0x89, 0xea, 0x4c, 0xad, 0x0f, 0x70,
  0xd1, 0x33, 0x94, 0xf5, 0x57, 0xb8, 0x1a, 0x7b, 0xdc, 0x3e, 0x9f, 0x01, 0x62, 0xc3, 0x25, 0x86,
  0xe7, 0x49, 0xaa, 0x0c, 0x6d, 0xce, 0x30, 0x91, 0xf2, 0x54, 0xb5, 0x17, 0x78, 0xd9, 0x3b, 0x9c,
  0xfd, 0x5f, 0xc0, 0x22, 0x83, 0xe4, 0x46, 0xa7, 0x09, 0x6a, 0xcb, 0x2d, 0x8e, 0xef, 0x51, 0xb2,
  0x14, 0x75, 0xd6, 0x38, 0x99, 0xfa, 0x5c, 0xbd, 0x1f, 0x80, 0xe1, 0x43, 0xa4, 0x06, 0x67, 0xc8]

def unscrambleTable : Array UInt8 :=
  (List.range 256).foldl (fun inv plain =>
    let scrambled := (scrambleTable[plain]?.getD 0).toNat
    inv.set! scrambled (UInt8.ofNat plain)) (Array.replicate 256 0)

def scramble (b : UInt8) : UInt8 :=
  scrambleTable[b.toNat]?.getD 0

def unscramble (b : UInt8) : UInt8 :=
  unscrambleTable[b.toNat]?.getD 0

end Netcode.Cipher
