import Netcode.Client.Download
import Netcode.OutOfBand
import Netcode.Channel.Netchan
import Netcode.Channel.Reliable
import Netcode.State.Snapshot
import Netcode.Input.Command
import Netcode.Opcode

set_option autoImplicit false

namespace Netcode

/-- One part of a message to the client. -/
inductive ServerPart where
  | gameState
  | snapshot (frame : Frame) (source : Option (Frame × UInt8))
  | download (block : UInt16) (size : Int32) (chunk : List UInt8) (error : Option String)
  | centerPrint (text : String)
  | locationPrint (x y : Int16) (text : String)
  | serverCommand (sequence : UInt32) (text : String)
  | byte (b : UInt8)

structure ClientMove where
  delta : Bool
  cmds : List (UserCmd × UserEyes)

/-- What a client packet carried, as far as it could be read. -/
structure ClientPacket where
  sequence : UInt32
  serverId : UInt32
  messageAck : UInt32
  commandAck : UInt32
  commands : List (UInt32 × String) := []
  moves : List ClientMove := []
  error : Option NetError := none

/-- What a datagram from the client turned out to be. -/
inductive ClientDatagram where
  | request (r : Except NetError OutOfBand.Request)
  | notAccepted
  | failed (e : NetError)
  | short
  | packet (p : ClientPacket)

/-- The server end of a connection. -/
structure ServerEndpoint where
  protocol : Protocol
  chan : Netchan
  challenge : UInt32
  commands : ReliableSequence
  clientCommands : CommandSequence
  gamestate : GameState

namespace ServerEndpoint

def new (p : Protocol) (qport : UInt16) (challenge : UInt32) (g : GameState) : ServerEndpoint :=
  { protocol := p
    chan := Netchan.new .server qport
    challenge := challenge
    commands := ReliableSequence.new 64
    clientCommands := CommandSequence.new 64
    gamestate := g }

def writePart (e : ServerEndpoint) : ServerPart → Wire Unit
  | .gameState => do
    Wire.writeByte ServerOp.gameState.code
    e.protocol.writeGameState e.gamestate
  | .snapshot frame source => do
    Wire.writeByte ServerOp.snapshot.code
    e.protocol.writeSnapshot e.gamestate source frame
  | .download block size chunk error => do
    Wire.writeByte ServerOp.download.code
    Wire.writeDownloadBlock block size chunk error
  | .centerPrint text => do
    Wire.writeByte ServerOp.centerPrint.code
    e.protocol.writeString text Wire.maxStringChars
  | .locationPrint x y text => do
    Wire.writeByte ServerOp.locPrint.code
    Wire.writeShort x
    Wire.writeShort y
    e.protocol.writeString text Wire.maxStringChars
  | .serverCommand sequence text => do
    Wire.writeByte ServerOp.serverCommand.code
    Wire.writeLong sequence.toInt32
    e.protocol.writeString text Wire.maxStringChars
  | .byte b => Wire.writeByte b

/-- The body of a message: the acknowledged client command, the pending server commands, the
parts and, if `eof`, the end mark. -/
def body (e : ServerEndpoint) (parts : List ServerPart) (eof : Bool) : Wire Unit := do
  Wire.writeLong e.clientCommands.sequence.toInt32
  for (seq, cmd) in e.commands.pending do
    Wire.writeByte ServerOp.serverCommand.code
    Wire.writeLong seq.toInt32
    e.protocol.writeString cmd Wire.maxStringChars
  for part in parts do
    e.writePart part
  if eof then Wire.writeByte ServerOp.eof.code
  Wire.flush

structure Sent where
  sequence : UInt32
  datagrams : List (List UInt8)
  length : Nat

def compose (e : ServerEndpoint) (parts : List ServerPart) (eof : Bool) :
    Except NetError (Sent × ServerEndpoint) := do
  let (r, m) := (Message.onStream ByteStream.growing).run (e.body parts eof)
  r
  let sequence := e.chan.outgoing
  let ack := e.clientCommands.sequence
  let command := (e.clientCommands.rawCommandAt ack).toUTF8.toList
  let message := Cipher.incoming e.challenge sequence command
    (Netchan.le32 sequence ++ m.stream.bytes.toList) (4 + Cipher.decodeStart)
  let (datagrams, chan) ← e.chan.transmit (message.drop 4)
  return (⟨sequence, datagrams, message.length - 4⟩, { e with chan := chan })

def readMoves (p : Protocol) (key : UInt32) :
    Nat → UserCmd → UserEyes → Wire (List (UserCmd × UserEyes))
  | 0, _, _ => pure []
  | n + 1, cmd, eyes => do
    let cmd ← p.readUserCmd key cmd
    let eyes ← Wire.readEyes eyes
    return (cmd, eyes) :: (← readMoves p key n cmd eyes)

/-- Reads the operations of a client packet up to its end mark, at most `fuel` of them, storing
its reliable commands as they come. -/
def readOps (key : UInt32) : Nat → WireWith (ClientPacket × ServerEndpoint) Unit
  | 0 => WireWith.wire (Wire.fail (.streamOverflow .reading))
  | fuel + 1 => do
    let (_, e) ← WireWith.value
    let op ← WireWith.wire Wire.readByte
    if op = ClientOp.eof.code then return
    if op = ClientOp.clientCommand.code then
      let seq := (← WireWith.wire Wire.readLong).toUInt32
      let cmd ← WireWith.wire Wire.readString
      WireWith.update fun (pk, e) =>
        ({ pk with commands := pk.commands ++ [(seq, cmd)] },
         { e with clientCommands := (e.clientCommands.store seq cmd).2 })
    else if op = ClientOp.move.code ∨ op = ClientOp.moveNoDelta.code then
      let count ← WireWith.wire Wire.readByte
      let cmds ← WireWith.wire (readMoves e.protocol key count.toNat default default)
      WireWith.update fun (pk, e) =>
        ({ pk with moves := pk.moves ++ [⟨op = ClientOp.move.code, cmds⟩] }, e)
    else WireWith.wire (Wire.fail (.invalidData s!"client op {op}"))
    readOps key fuel

def readPacket (e : ServerEndpoint) (sequence : UInt32) (payload : List UInt8) :
    ClientPacket × ServerEndpoint :=
  let serverId := Netchan.readLe32 payload
  let messageAck := Netchan.readLe32 (payload.drop 4)
  let commandAck := Netchan.readLe32 (payload.drop 8)
  let command := (e.commands.commandAt commandAck).toUTF8.toList
  let payload := Cipher.outgoing e.challenge serverId messageAck command payload Cipher.encodeStart
  let e := { e with commands := e.commands.updateAcknowledge commandAck }
  let key := e.gamestate.checksumFeed.toUInt32 ^^^ messageAck ^^^ e.protocol.hashKey command
  let read : WireWith (ClientPacket × ServerEndpoint) Unit := do
    let _ ← WireWith.wire Wire.readLong
    let _ ← WireWith.wire Wire.readLong
    let _ ← WireWith.wire Wire.readLong
    readOps key (← WireWith.wire Wire.readBudget)
  let start : ClientPacket := { sequence, serverId, messageAck, commandAck }
  let (r, _, pk, e) := read.run (Message.onStream (ByteStream.fixedFull ⟨payload.toArray⟩)) (start, e)
  let pk := match r with
    | .error err => { pk with error := some err }
    | .ok () => pk
  (pk, { e with clientCommands := e.clientCommands.drain.2 })

/-- Takes one datagram from the client. -/
def receive (e : ServerEndpoint) (packet : List UInt8) : ClientDatagram × ServerEndpoint :=
  if OutOfBand.isOutOfBand packet then (.request (OutOfBand.Request.ofBytes packet), e)
  else
    let (r, chan) := e.chan.process packet
    let e := { e with chan := chan }
    match r with
    | .error err => (.failed err, e)
    | .ok none => (.notAccepted, e)
    | .ok (some message) =>
      let payload := message.drop 4
      if payload.length < Cipher.encodeStart then (.short, e)
      else
        let (pk, e) := e.readPacket (Netchan.readLe32 message) payload
        (.packet pk, e)

end ServerEndpoint

end Netcode
