set_option autoImplicit false

namespace Netcode

/-- Which way a byte stream was being used when it ran out of room. -/
inductive Direction where
  | reading
  | writing
  deriving DecidableEq, Repr

/-- A failure of the network layer. -/
inductive NetError where
  | streamOverflow (direction : Direction)
  | badBits (bits : UInt32)
  | badOpcode (code : UInt8)
  | badHeader (message : String)
  | unsupportedProtocol (version : UInt32)
  | badEntityNumber (number : UInt32)
  | badFieldCount (count max : Nat)
  | badConfigString (index : Nat)
  | gameStateOverflow (max : Nat)
  | downloadBlock (expected received : UInt16)
  | stringTooLong (max : Nat)
  | invalidData (message : String)
  deriving DecidableEq, Repr

namespace NetError

def name : NetError → String
  | .streamOverflow _ => "StreamOverflow"
  | .badBits _ => "BadBits"
  | .badOpcode _ => "BadOpcode"
  | .badHeader _ => "BadHeader"
  | .unsupportedProtocol _ => "UnsupportedProtocol"
  | .badEntityNumber _ => "BadEntityNumber"
  | .badFieldCount _ _ => "BadFieldCount"
  | .badConfigString _ => "BadConfigString"
  | .gameStateOverflow _ => "GameStateOverflow"
  | .downloadBlock _ _ => "DownloadBlock"
  | .stringTooLong _ => "StringTooLong"
  | .invalidData _ => "InvalidData"

def message : NetError → String
  | .streamOverflow .reading => "Stream overflow while reading"
  | .streamOverflow .writing => "Stream overflow while writing"
  | .badBits bits => s!"Bad bit count for byte-aligned codec: {bits}"
  | .badOpcode code => s!"Illegal message opcode: {code}"
  | .badHeader text => s!"Bad packet header: {text}"
  | .unsupportedProtocol version => s!"Unsupported protocol version {version}"
  | .badEntityNumber number => s!"Bad entity number {number}"
  | .badFieldCount count max => s!"Invalid field count {count} (max {max})"
  | .badConfigString index => s!"Config string index out of range: {index}"
  | .gameStateOverflow max => s!"Game state exceeds {max} characters"
  | .downloadBlock expected received =>
    s!"Download block out of sequence: expected {expected}, got {received}"
  | .stringTooLong max => s!"String exceeds {max} characters"
  | .invalidData text => s!"Invalid data: {text}"

end NetError

/-- A panic of the runtime: a table indexed past its end. The program stops there and returns
nothing. -/
structure IndexOutOfBounds where
  len : Nat
  index : Nat
  deriving DecidableEq, Repr

def IndexOutOfBounds.message (e : IndexOutOfBounds) : String :=
  s!"index out of bounds: the len is {e.len} but the index is {e.index}"

end Netcode
