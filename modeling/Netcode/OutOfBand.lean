import Netcode.Error
import Netcode.Text.Info
import Netcode.Text.Hex

set_option autoImplicit false

namespace Netcode

namespace OutOfBand

def marker : List UInt8 := [0xFF, 0xFF, 0xFF, 0xFF]

def fromServer : UInt8 := 0x01

def fromClient : UInt8 := 0x02

def isOutOfBand (packet : List UInt8) : Bool :=
  packet.take 4 == marker

/-- The direction byte and the command text of an out-of-band packet; the text ends at the
first zero byte and is decoded lossily. -/
def split (packet : List UInt8) : Except NetError (UInt8 × String) :=
  if !isOutOfBand packet then .error (.badHeader "missing connectionless marker")
  else match packet.drop 4 with
    | [] => .error (.badHeader "missing direction byte")
    | direction :: text => .ok (direction, Utf8.decodeLossy (text.takeWhile (· ≠ 0)))

def hexByte (b : UInt8) : String :=
  String.ofList ('0' :: 'x' :: Text.byteHex b)

def checkDirection (found expected : UInt8) : Except NetError Unit :=
  if found = expected then .ok ()
  else .error (.badHeader s!"direction byte {hexByte found}, expected {hexByte expected}")

def afterFirstLine (text : String) : String :=
  match text.toList.dropWhile (· ≠ '\n') with
  | [] => ""
  | _ :: rest => String.ofList rest

/-- Reads a packet sent from the `expected` end: the header is checked, then the text read. -/
def readPacket {α : Type} (expected : UInt8) (ofText : String → Except NetError α)
    (packet : List UInt8) : Except NetError α := do
  let (direction, text) ← split packet
  checkDirection direction expected
  ofText text

def encode (direction : UInt8) (text : String) : List UInt8 :=
  marker ++ direction :: text.toUTF8.toList

/-- What a client asks outside a session. -/
inductive Request where
  | getChallenge
  | connect (userinfo : InfoString)
  | getInfo
  | getStatus
  deriving DecidableEq, Repr

structure StatusPlayer where
  score : Int32
  ping : Int32
  name : String
  deriving DecidableEq, Repr

/-- What a server answers outside a session. -/
inductive Response where
  | challenge (challenge : UInt32)
  | connect
  | print (message : String)
  | dropError (message : String)
  | info (info : InfoString)
  | status (info : InfoString) (players : List StatusPlayer)
  | disconnect
  deriving DecidableEq, Repr

namespace Request

def text : Request → String
  | .getChallenge => "getchallenge"
  | .connect userinfo => s!"connect \"{userinfo}\""
  | .getInfo => "getinfo"
  | .getStatus => "getstatus"

def toBytes (r : Request) : List UInt8 :=
  encode fromClient r.text

def ofText (text : String) : Except NetError Request :=
  match Text.tokenize text with
  | [] => .error (.invalidData "empty connectionless request")
  | "getchallenge" :: _ => pure .getChallenge
  | "connect" :: args => pure (.connect (InfoString.parse (args.headD "")))
  | "getinfo" :: _ => pure .getInfo
  | "getstatus" :: _ => pure .getStatus
  | c :: _ => .error (.invalidData s!"unknown request \"{c}\"")

def ofBytes (packet : List UInt8) : Except NetError Request :=
  readPacket fromClient ofText packet

end Request

namespace StatusPlayer

def line (p : StatusPlayer) : String :=
  s!"{p.score} {p.ping} \"{p.name}\"\n"

/-- Reads a player line: score and ping are required integers, the name may be missing. -/
def ofLine (line : String) : Option StatusPlayer :=
  match Text.tokenize line with
  | score :: ping :: rest => do
    let score ← Text.parseInt32 score
    let ping ← Text.parseInt32 ping
    pure ⟨score, ping, rest.headD ""⟩
  | _ => none

end StatusPlayer

namespace Response

def text : Response → String
  | .challenge c => s!"challengeResponse {c}"
  | .connect => "connectResponse"
  | .print message => "print\n" ++ message
  | .dropError message => "droperror " ++ message
  | .info pairs => s!"infoResponse\n{pairs}"
  | .status pairs players => s!"statusResponse\n{pairs}\n" ++ String.join (players.map StatusPlayer.line)
  | .disconnect => "disconnect"

def toBytes (r : Response) : List UInt8 :=
  encode fromServer r.text

/-- The info line and the players of a status answer; lines that are not player lines are
skipped. -/
def statusOf (body : String) : Response :=
  match Text.lines body with
  | [] => .status (InfoString.parse "") []
  | first :: rest => .status (InfoString.parse first) (rest.filterMap StatusPlayer.ofLine)

/-- Reads a response from its command text. A challenge is read as a 64-bit integer and keeps
its low 32 bits. -/
def ofText (text : String) : Except NetError Response :=
  match Text.tokenize text with
  | [] => .error (.invalidData "empty connectionless response")
  | "challengeResponse" :: args =>
    match (args.head?).bind Text.parseInt64 with
    | some c => pure (.challenge c.toUInt64.toUInt32)
    | none => .error (.invalidData "challenge response without a number")
  | "connectResponse" :: _ => pure .connect
  | "print" :: _ => pure (.print (afterFirstLine text))
  | "droperror" :: _ => pure (.dropError (Text.argsFrom text 1))
  | "infoResponse" :: _ => pure (.info (InfoString.parse (Text.trimEnd (afterFirstLine text))))
  | "statusResponse" :: _ => pure (statusOf (afterFirstLine text))
  | "disconnect" :: _ => pure .disconnect
  | c :: _ => .error (.invalidData s!"unknown response \"{c}\"")

def ofBytes (packet : List UInt8) : Except NetError Response :=
  readPacket fromServer ofText packet

end Response

end OutOfBand

end Netcode
