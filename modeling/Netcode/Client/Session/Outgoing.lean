import Netcode.Client.Session.Basic
import Netcode.Opcode

set_option autoImplicit false

namespace Netcode

namespace ClientSession

def connectInfo (s : ClientSession) : InfoString :=
  ((s.userinfo.set "protocol" (toString s.protocol.version)).set "qport"
    (toString s.settings.qport)).set "challenge" (toString s.challenge.toInt32)

def lastPacket (s : ClientSession) : Option OutPacket :=
  (s.outPackets[packetSlot (s.chan.outgoing - 1)]?).join

/-- Whether a packet is due: while no game state flows and nothing downloads, one a second;
otherwise as many a second as the settings allow. -/
def readyToSend (s : ClientSession) : Bool :=
  if !s.atLeast .connected then false
  else if !s.atLeast .primed ∧ s.download.isNone then
    match s.lastPacketSent with
    | some t => s.realMs - t.toInt32 ≥ heartbeatTime
    | none => true
  else
    match s.lastPacket with
    | some p => s.realMs - p.realTime ≥ 1000 / (max s.settings.maxPackets 1).toInt32
    | none => true

def createCommand (s : ClientSession) : ClientSession :=
  if !s.atLeast .primed then s
  else
    let n := s.cmdNumber + 1
    { s with
      cmdNumber := n
      cmds := s.cmds.set! (cmdSlot n) { s.input.1 with serverTime := s.clock.serverTime }
      eyes := s.eyes.set! (cmdSlot n) s.input.2 }

/-- The body of a packet before it is enciphered, with the server time of its last user
command (0 without commands). -/
def packetBody (s : ClientSession) : Wire Int32 := do
  let p := s.protocol
  let sms := s.serverMessageSequence
  Wire.writeLong s.serverId.toInt32
  Wire.writeLong sms.toInt32
  Wire.writeLong s.serverCommands.sequence.toInt32
  for (seq, cmd) in s.reliable.pending do
    Wire.writeByte ClientOp.clientCommand.code
    Wire.writeLong seq.toInt32
    Wire.writeString cmd
  let oldCmdNumber := (s.lastPacket.map (·.cmdNumber)).getD 0
  let count := min (s.cmdNumber - oldCmdNumber).toNat maxPacketCmds
  let mut lastServerTime : Int32 := 0
  if count > 0 ∧ s.atLeast .primed then
    let delta := match s.snapshots.latest? with
      | some c => c.valid && c.messageNum == sms
      | none => false
    Wire.writeByte (if delta then ClientOp.move.code else ClientOp.moveNoDelta.code)
    Wire.writeByte count.toUInt8
    let command := (s.serverCommands.rawCommandAt s.serverCommands.sequence).toUTF8.toList
    let key := s.gamestate.checksumFeed.toUInt32 ^^^ sms ^^^ p.hashKey command
    let mut oldCmd : UserCmd := default
    let mut oldEyes : UserEyes := default
    for i in List.range count do
      let slot := cmdSlot (s.cmdNumber - (count - 1 - i).toUInt32)
      let cmd := s.cmds.getD slot default
      let eyes := s.eyes.getD slot default
      p.writeUserCmd key oldCmd cmd
      Wire.writeEyes oldEyes eyes
      oldCmd := cmd
      oldEyes := eyes
    lastServerTime := oldCmd.serverTime
  Wire.writeByte ClientOp.eof.code
  Wire.flush
  return lastServerTime

end ClientSession

namespace SessionStep

open ClientSession

/-- Sends a connection request if one is due: the first at once, the next after the
retransmit timeout, giving up after the last attempt. -/
def checkForResend : SessionStep Unit := do
  let s ← get
  if s.state ≠ .challenging ∧ s.state ≠ .connecting then return
  if let some t := s.connectTime then
    if s.realTime - t < retransmitTimeout then return
  if s.connectAttempts ≥ maxConnectAttempts then
    set s.reset
    throw .noResponse
  let request : OutOfBand.Request :=
    if s.state = .challenging then .getChallenge else .connect s.connectInfo
  set ({ s with connectTime := some s.realTime, connectAttempts := s.connectAttempts + 1 }.send
    request.toBytes)

def writePacket : SessionStep Unit := do
  let s ← get
  let (r, m) := (Message.onStream ByteStream.growing).run s.packetBody
  match r with
  | .error e => throw (.net e)
  | .ok lastServerTime =>
    let command := (s.serverCommands.rawCommandAt s.serverCommands.sequence).toUTF8.toList
    let data := Cipher.outgoing s.encoding s.serverId s.serverMessageSequence command
      m.stream.bytes.toList Cipher.encodeStart
    let sent : OutPacket := ⟨s.realMs, lastServerTime, s.cmdNumber⟩
    let s := { s with
      outPackets := s.outPackets.set! (packetSlot s.chan.outgoing) (some sent)
      lastPacketSent := some s.realTime }
    set s
    match s.chan.transmit data with
    | .error e => throw (.net e)
    | .ok (packets, chan) => set (packets.foldl ClientSession.send { s with chan := chan })

/-- Moves the clock on: the first valid snapshot after a game state starts it and makes the
session active; later frames advance it. -/
def updateTime : SessionStep Unit := do
  let s ← get
  let some current := s.snapshots.latest? | return
  match s.state with
  | .primed =>
    if s.newSnapshots then
      set { s with
        newSnapshots := false
        clock := s.clock.firstSnapshot s.realMs current.serverTime
        state := .active }
  | .active =>
    let fresh := s.newSnapshots
    let s := { s with newSnapshots := false }
    set s
    match s.clock.advance s.realMs current.serverTime fresh s.settings.timeNudge with
    | .ok clock => set { s with clock := clock }
    | .error e => throw e
  | _ => pure ()

/-- Leaves the server, telling it three times if a channel is up, since no answer will come. -/
def disconnect : SessionStep Unit := do
  if (← get).atLeast .connected then
    change fun s => (s.addReliable "disconnect").2
    writePacket
    writePacket
    writePacket
  change ClientSession.reset

end SessionStep

end Netcode
