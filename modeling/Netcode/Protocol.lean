import Netcode.Wire.Message
import Netcode.Channel.Cipher

set_option autoImplicit false

namespace Netcode

/-- The two families of the protocol. -/
inductive Family where
  | classic
  | expanded
  deriving DecidableEq, Repr, Inhabited

structure GameStateLimits where
  maxConfigStrings : Nat
  maxChars : Nat
  maxBaselines : Nat
  deriving DecidableEq, Repr, Inhabited

/-- The rules agreed for one connection. -/
structure Protocol where
  version : UInt32
  family : Family
  /-- Whether the version lies in its family's own range rather than falling to the default. -/
  claimed : Bool
  deriving DecidableEq, Repr, Inhabited

def minProtocol : UInt32 := 5

namespace Protocol

/-- The rules for a version; versions below 5 are refused. -/
def ofVersion (version : UInt32) : Except NetError Protocol :=
  if version < minProtocol then .error (.unsupportedProtocol version)
  else if version ≤ 8 then .ok ⟨version, .classic, true⟩
  else if 15 ≤ version ∧ version ≤ 17 then .ok ⟨version, .expanded, true⟩
  else .ok ⟨version, .expanded, false⟩

/-- The range of versions that the rules in use claim; `(0, 0)` for the default. -/
def range (p : Protocol) : Nat × Nat :=
  match p.family, p.claimed with
  | .classic, _ => (5, 8)
  | .expanded, true => (15, 17)
  | .expanded, false => (0, 0)

def numberBits (p : Protocol) : Nat :=
  match p.family with
  | .classic => 10
  | .expanded => 11

def maxEntities (p : Protocol) : Nat :=
  Nat.pow 2 p.numberBits

def noneNumber (p : Protocol) : Nat :=
  p.maxEntities - 1

def hashMaxLen (p : Protocol) : Nat :=
  match p.family with
  | .classic => 32
  | .expanded => 64

def buttonBits (p : Protocol) : Nat :=
  match p.family with
  | .classic => 8
  | .expanded => 16

def limits (p : Protocol) : GameStateLimits :=
  ⟨2736, 40000, p.maxEntities⟩

/-- The hash that keys user commands: a position-weighted sum of up to `hashMaxLen` characters
before the first zero, high characters and `%` counted as `.`, folded with its shifts. -/
def hashKey (p : Protocol) (s : List UInt8) : UInt32 :=
  let chars := (s.take p.hashMaxLen).takeWhile (· ≠ 0)
  let (hash, _) := chars.foldl (fun (acc : Int32 × Nat) c =>
    let (h, i) := acc
    (h + (Cipher.keyChar c).toUInt32.toInt32 * (119 + i).toInt32, i + 1)) ((0 : Int32), 0)
  (hash ^^^ (hash >>> 10) ^^^ (hash >>> 20)).toUInt32

/-- Writes the identifier of an entity, refusing numbers beyond the slots. -/
def writeNumber (p : Protocol) (number : UInt32) : Wire Unit := do
  if number.toNat ≥ p.maxEntities then Wire.fail (.badEntityNumber number)
  Wire.writeBits number.toUInt64.toInt64 p.numberBits.toInt32

def readNumber (p : Protocol) : Wire UInt32 :=
  return (← Wire.readBits p.numberBits.toInt32).toUInt64.toUInt32

/-- Writes a string under `max`, scrambling its bytes in the expanded family. -/
def writeString (p : Protocol) (s : String) (max : Nat) : Wire Unit :=
  let bytes := s.toUTF8.toList
  match p.family with
  | .classic => Wire.writeRawString bytes max
  | .expanded => Wire.writeRawString (bytes.map Cipher.scramble) max

def readString (p : Protocol) (max : Nat) : Wire String := do
  let raw ← Wire.readRawString max
  match p.family with
  | .classic => return Utf8.decodeLossy raw
  | .expanded => return Utf8.decodeLossy (raw.map Cipher.unscramble)

/-- The internal index of a config string sent as wire index `n`: the classic family lacks the
two slots after the system info. Indices are machine words, so the shift wraps at `2 ^ 64`. -/
def configStringFromNet (p : Protocol) (n : Nat) : Nat :=
  match p.family with
  | .classic => if n < 2 then n else (n + 2) % Nat.pow 2 64
  | .expanded => n

def configStringToNet (p : Protocol) (i : Nat) : Option Nat :=
  match p.family with
  | .classic => if i < 2 then some i else if i < 4 then none else some (i - 2)
  | .expanded => some i

/-- The server frame time closing a game state header, sent only in the expanded family;
`0.05` stands in for a missing one. -/
def writeFrameTime (p : Protocol) (frameTime : Option Single) : Wire Unit :=
  match p.family with
  | .classic => pure ()
  | .expanded => Wire.writeFloat (frameTime.getD ⟨0x3D4CCCCD⟩)

def readFrameTime (p : Protocol) : Wire (Option Single) :=
  match p.family with
  | .classic => pure none
  | .expanded => return some (← Wire.readFloat)

end Protocol

end Netcode
