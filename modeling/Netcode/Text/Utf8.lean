set_option autoImplicit false

namespace Netcode.Utf8

def isTail (b : UInt8) : Bool :=
  0x80 ≤ b && b ≤ 0xBF

/-- The range allowed for the second byte of a sequence started by `lead`, which rules out
overlong forms, surrogates and code points above U+10FFFF. -/
def secondRange (lead : UInt8) : UInt8 × UInt8 :=
  if lead = 0xE0 then (0xA0, 0xBF)
  else if lead = 0xED then (0x80, 0x9F)
  else if lead = 0xF0 then (0x90, 0xBF)
  else if lead = 0xF4 then (0x80, 0x8F)
  else (0x80, 0xBF)

def secondFits (lead b : UInt8) : Bool :=
  let (lo, hi) := secondRange lead
  lo ≤ b && b ≤ hi

def sequenceLength (lead : UInt8) : Nat :=
  if lead < 0x80 then 1
  else if lead < 0xC2 then 0
  else if lead < 0xE0 then 2
  else if lead < 0xF0 then 3
  else if lead < 0xF5 then 4
  else 0

def payload (b : UInt8) : Nat :=
  (b &&& 0x3F).toNat

def replacement : Char := '�'

/-- Decodes bytes, replacing each broken piece with one U+FFFD. -/
def decodeChars : List UInt8 → List Char
  | [] => []
  | b :: rest =>
    let n := sequenceLength b
    if n = 1 then Char.ofNat b.toNat :: decodeChars rest
    else if n = 0 then replacement :: decodeChars rest
    else
      match rest with
      | [] => [replacement]
      | c :: more =>
        if n = 2 then
          if isTail c then
            Char.ofNat ((b &&& 0x1F).toNat * 64 + payload c) :: decodeChars more
          else replacement :: decodeChars (c :: more)
        else if secondFits b c = false then replacement :: decodeChars (c :: more)
        else
          match more with
          | [] => [replacement]
          | d :: more₂ =>
            if isTail d = false then replacement :: decodeChars (d :: more₂)
            else if n = 3 then
              Char.ofNat ((b &&& 0x0F).toNat * 4096 + payload c * 64 + payload d) ::
                decodeChars more₂
            else
              match more₂ with
              | [] => [replacement]
              | e :: more₃ =>
                if isTail e then
                  Char.ofNat ((b &&& 0x07).toNat * 262144 + payload c * 4096 +
                    payload d * 64 + payload e) :: decodeChars more₃
                else replacement :: decodeChars (e :: more₃)

def decodeLossy (bytes : List UInt8) : String :=
  String.ofList (decodeChars bytes)

end Netcode.Utf8
