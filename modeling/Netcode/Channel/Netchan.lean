import Netcode.Wire.Message

set_option autoImplicit false

namespace Netcode

inductive NetSide where
  | client
  | server
  deriving DecidableEq, Repr, Inhabited

/-- Sequencing and fragmentation state of one end. -/
structure Netchan where
  side : NetSide
  qport : UInt16
  outgoing : UInt32 := 1
  incoming : UInt32 := 0
  dropped : UInt32 := 0
  stale : UInt32 := 0
  fragmentSequence : UInt32 := 0
  fragmentBuffer : List UInt8 := []
  deriving Repr, Inhabited

namespace Netchan

def maxPacketLen : Nat := 1400

def maxMessageLen : Nat := 49152

def fragmentSize : Nat := maxPacketLen - 100

def fragmentBit : UInt32 := (1 : UInt32) <<< 31

def new (side : NetSide) (qport : UInt16) : Netchan :=
  { side := side, qport := qport }

def le32 (v : UInt32) : List UInt8 :=
  Wire.littleEndian v.toUInt64 4

def le16 (v : Nat) : List UInt8 :=
  Wire.littleEndian v.toUInt64 2

def readLe32 (bytes : List UInt8) : UInt32 :=
  (Wire.ofLittleEndian (bytes.take 4)).toUInt32

def readLe16 (bytes : List UInt8) : Nat :=
  (Wire.ofLittleEndian (bytes.take 2)).toNat

def header (c : Netchan) (sequence : UInt32) : List UInt8 :=
  match c.side with
  | .client => le32 sequence ++ le16 c.qport.toNat
  | .server => le32 sequence

def fragments (header data : List UInt8) (start : Nat) : Nat → List (List UInt8)
  | 0 => []
  | fuel + 1 =>
    let len := min (data.length - start) fragmentSize
    let packet := header ++ le16 start ++ le16 len ++ (data.drop start).take len
    if len < fragmentSize then [packet] else packet :: fragments header data (start + len) fuel

/-- Wraps a message in one or more datagrams and advances the outgoing sequence. -/
def transmit (c : Netchan) (data : List UInt8) : Except NetError (List (List UInt8) × Netchan) :=
  if data.length > maxMessageLen then
    .error (.invalidData s!"message of {data.length} bytes exceeds {maxMessageLen}")
  else
    let sequence := c.outgoing
    let c := { c with outgoing := c.outgoing + 1 }
    if data.length < fragmentSize then .ok ([c.header sequence ++ data], c)
    else .ok (fragments (c.header (sequence ||| fragmentBit)) data 0 (data.length / fragmentSize + 1), c)

def incomingHeaderLen (c : Netchan) : Nat :=
  match c.side with
  | .client => 4
  | .server => 6

/-- Adds an in-order fragment of message `sequence` to the buffer: the whole message once its
last fragment arrived, nothing while more are due or when a fragment was lost. -/
def reassemble (c : Netchan) (sequence : UInt32) (start : Nat) (payload : List UInt8) :
    Except NetError (Option (List UInt8)) × Netchan :=
  let c := if sequence ≠ c.fragmentSequence then
      { c with fragmentSequence := sequence, fragmentBuffer := [] }
    else c
  if start ≠ c.fragmentBuffer.length then (.ok none, c)
  else if c.fragmentBuffer.length + payload.length > maxMessageLen then
    (.error (.invalidData s!"reassembled message exceeds {maxMessageLen} bytes"), { c with fragmentBuffer := [] })
  else
    let buffer := c.fragmentBuffer ++ payload
    if payload.length = fragmentSize then (.ok none, { c with fragmentBuffer := buffer })
    else (.ok (some buffer), { c with fragmentBuffer := [] })

/-- Accepts a datagram: a whole message is answered behind its four-byte sequence; stale datagrams,
another qport's and incomplete messages answer nothing. -/
def process (c : Netchan) (packet : List UInt8) : Except NetError (Option (List UInt8)) × Netchan :=
  let headerLen := c.incomingHeaderLen
  if packet.length < headerLen then (.error (.badHeader s!"{packet.length} byte datagram"), c)
  else
    let raw := readLe32 packet
    let fragmented := raw &&& fragmentBit ≠ 0
    let sequence := raw &&& ~~~fragmentBit
    if c.side = .server ∧ (readLe16 (packet.drop 4)).toUInt16 ≠ c.qport then (.ok none, c)
    else
      let payload := packet.drop headerLen
      let fragment : Except NetError (Option (Nat × List UInt8)) :=
        if !fragmented then .ok none
        else if payload.length < 4 then .error (.badHeader "truncated fragment header")
        else
          let len := readLe16 (payload.drop 2)
          let rest := payload.drop 4
          if len ≠ rest.length then .error (.badHeader s!"fragment length {len} but {rest.length} bytes")
          else .ok (some (readLe16 payload, rest))
      match fragment with
      | .error e => (.error e, c)
      | .ok fragment =>
        if (sequence - c.incoming).toInt32 ≤ 0 then (.ok none, { c with stale := c.stale + 1 })
        else
          let c := { c with dropped := sequence - c.incoming - 1 }
          let (message, c) : Except NetError (Option (List UInt8)) × Netchan := match fragment with
            | none => (.ok (some payload), c)
            | some (start, piece) => c.reassemble sequence start piece
          match message with
          | .ok (some m) => (.ok (some (le32 sequence ++ m)), { c with incoming := sequence })
          | other => (other, c)

end Netchan

end Netcode
