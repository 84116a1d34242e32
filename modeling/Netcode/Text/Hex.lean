set_option autoImplicit false

namespace Netcode

namespace Text

def hexDigit (n : Nat) : Char := if n < 10 then Char.ofNat (48 + n) else Char.ofNat (87 + n)

def hexDigitValue? (c : Char) : Option Nat :=
  if '0' ≤ c ∧ c ≤ '9' then some (c.toNat - 48)
  else if 'a' ≤ c ∧ c ≤ 'f' then some (c.toNat - 87)
  else if 'A' ≤ c ∧ c ≤ 'F' then some (c.toNat - 55)
  else none

def byteHex (b : UInt8) : List Char := [hexDigit (b.toNat / 16), hexDigit (b.toNat % 16)]

def hexOfBytes (bytes : List UInt8) : String := String.ofList (bytes.flatMap byteHex)

def natOfHex? (digits : List Char) : Option Nat :=
  if digits.isEmpty then none
  else digits.foldlM (fun acc c => (hexDigitValue? c).map (acc * 16 + ·)) 0

/-- The bytes of hexadecimal text, two digits to a byte. -/
def bytesOfHex? : List Char → Option (List UInt8)
  | [] => some []
  | a :: b :: rest => do
    let hi ← hexDigitValue? a
    let lo ← hexDigitValue? b
    return UInt8.ofNat (hi * 16 + lo) :: (← bytesOfHex? rest)
  | [_] => none

end Text

end Netcode
