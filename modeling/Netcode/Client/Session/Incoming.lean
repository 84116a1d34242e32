import Netcode.Client.Session.Outgoing
import Netcode.Text.Tokens

set_option autoImplicit false

namespace Netcode

/-- A step that reads a server message into the session; a failure keeps both as the step left
them. -/
abbrev ParseStep := ExceptT ClientError (StateM (Message × ClientSession))

namespace ParseStep

def wire {α : Type} (w : Wire α) : ParseStep α :=
  ExceptT.mk (modifyGet fun (m, s) => let (r, m) := m.run w; (r.mapError .net, (m, s)))

def session {α : Type} (step : SessionStep α) : ParseStep α :=
  ExceptT.mk (modifyGet fun (m, s) => let (r, s) := step.run s; (r, (m, s)))

def current : ParseStep ClientSession :=
  return (← get).2

def change (f : ClientSession → ClientSession) : ParseStep Unit :=
  modify fun (m, s) => (m, f s)

def failNet {α : Type} (e : NetError) : ParseStep α :=
  throw (.net e)

def snapshots {α : Type} (step : SnapshotStep α) : ParseStep α :=
  ExceptT.mk (modifyGet fun (m, s) =>
    let (r, m, mgr) := step.run m s.snapshots
    (r.mapError .net, (m, { s with snapshots := mgr })))

def download {α : Type} (d : Download) (step : WireWith Download α) :
    ParseStep (Except NetError α × Download) :=
  modifyGet fun (m, s) => let (r, m, d) := step.run m d; ((r, d), (m, s))

end ParseStep

namespace ClientSession

/-- Applies a changed config string sent as wire index `netIndex`; an unchanged value is
ignored, and the system info string also updates the server id. -/
def configStringModified (s : ClientSession) (netIndex : Nat) (value : String) :
    Except ClientError ClientSession :=
  let index := s.protocol.configStringFromNet netIndex
  if s.gamestate.configString index = some value then .ok s
  else match s.gamestate.setConfigString index value with
    | .error e => .error (.net e)
    | .ok g =>
      let s := { s with gamestate := g }.emit (.configString index ((g.configString index).getD ""))
      .ok (if index = ConfigKind.systemInfoIndex then s.systemInfoChanged else s)

def indexArgument (arg : String) : Option Nat :=
  (Text.parseInteger false arg).bind fun n => if n < Int.pow 2 64 then some n.toNat else none

/-- The round trip to the newest sent packet whose commands the server had run when it took a
snapshot of `commandTime`; 999 when no remembered packet qualifies. -/
def pingFor (s : ClientSession) (commandTime : Int32) : Int32 :=
  let found := (List.range packetBackup).findSome? fun i =>
    match (s.outPackets[packetSlot (s.chan.outgoing - 1 - i.toUInt32)]?).join with
    | some p => if commandTime ≥ p.serverTime then some (s.realMs - p.realTime) else none
    | none => none
  found.getD 999

end ClientSession

namespace SessionStep

open ClientSession

def dropConnection {α : Type} (reason : String) : SessionStep α := do
  change (·.dropConnection reason)
  throw (.disconnected reason)

def executeServerCommand (text : String) : SessionStep Unit :=
  match Text.tokenize text with
  | [] => pure ()
  | args@(name :: rest) =>
    let index := rest.head?.bind indexArgument
    let tail := " ".intercalate (rest.drop 1)
    match name, index with
    | "disconnect", _ =>
      dropConnection (if rest.isEmpty then "Server disconnected" else " ".intercalate rest)
    | "cs", none | "bcs0", none | "bcs1", none | "bcs2", none => pure ()
    | "cs", some i => attempt (·.configStringModified i tail)
    | "bcs0", some i => change fun s => { s with bigConfigString := s.bigConfigString.begin i tail }
    | "bcs1", some i => change fun s => { s with bigConfigString := s.bigConfigString.append i tail }
    | "bcs2", some i => do
      let s ← get
      let (value, big) := s.bigConfigString.finish i tail
      set { s with bigConfigString := big }
      if let some v := value then attempt (·.configStringModified i v)
    | "stufftext", _ => change (·.emit (.stufftext (" ".intercalate rest)))
    | _, _ => change (·.emit (.serverCommand args))

def executeServerCommands : Nat → SessionStep Unit
  | 0 => pure ()
  | fuel + 1 => do
    let s ← get
    let (next, commands) := s.serverCommands.nextPending
    set { s with serverCommands := commands }
    if let some (_, cmd) := next then
      executeServerCommand cmd
      executeServerCommands fuel

def handleResponse : OutOfBand.Response → SessionStep Unit
  | .challenge c => do
    let s ← get
    if s.state = .challenging then
      set { s with challenge := c, state := .connecting, connectTime := none, connectAttempts := 0 }
      checkForResend
  | .connect => do
    let s ← get
    match s.state with
    | .connecting =>
      set { s with
        state := .connected
        chan := Netchan.new .client s.settings.qport
        encoding := s.challenge
        lastPacketSent := none }
    | .challenging =>
      set s.reset
      throw .invalidConnectResponse
    | _ => pure ()
  | .print message => change (·.emit (.print message))
  | .dropError message => do
    let s ← get
    if s.state ≠ .disconnected then
      set (s.emit (.disconnect message)).reset
      throw (.connectionRejected message)
  | .info info => change (·.emit (.infoResponse info))
  | .status info players => change (·.emit (.statusResponse info players))
  | .disconnect => do
    if (← get).atLeast .connected then dropConnection "Server disconnected"

end SessionStep

namespace ParseStep

open ClientSession

/-- Reads a game state: it replaces the old one, restarts snapshots and server commands, is
reported with each of its config strings, and primes a connected session. -/
def gameState : ParseStep Unit := do
  let g ← wire (← current).protocol.readGameState
  change fun s =>
    let s := { s with
      snapshots := {}
      newSnapshots := false
      serverCommands := s.serverCommands.reset g.serverCommandSequence
      bigConfigString := {}
      gamestate := g }
    let s := g.nonEmpty.foldl (fun s (i, v) => s.emit (.configString i v)) (s.emit (.gamestate g))
    let s := s.systemInfoChanged
    if s.atLeast .connected then { s with state := .primed } else s

/-- Reads a snapshot; a valid one gets its ping and is reported, with a restart if the server
count flag flipped. -/
def snapshot : ParseStep Unit := do
  let s ← current
  let valid ← snapshots
    (s.protocol.parseSnapshot s.gamestate s.serverMessageSequence s.serverCommands.sequence)
  if !valid then return
  let s ← current
  let some latest := s.snapshots.latest? | return
  let mgr := s.snapshots.setPing (s.pingFor latest.ps.commandTime)
  let s := { s with snapshots := mgr, newSnapshots := true }
  let s := if mgr.state = .restarted then s.emit .serverRestart else s
  let s := match mgr.get? mgr.current.messageNum with
    | some snap => s.emit (.snapshot snap)
    | none => s
  change fun _ => s

/-- Reads a download block. An unasked one is read, answered with a stop and dropped; a block out
of order is dropped and the download goes on. -/
def downloadBlock : ParseStep Unit := do
  let s ← current
  match s.download with
  | none =>
    change fun s => (s.addReliable "stopdl").2
    let (r, _) ← download (Download.new "") Download.receiveBlock
    match r with
    | .error (.downloadBlock _ _) | .ok _ => pure ()
    | .error e => failNet e
  | some d =>
    change fun s => { s with download := none }
    let (r, d) ← download d Download.receiveBlock
    match r with
    | .ok (.progress ack) => change fun s => { (s.addReliable ack).2 with download := some d }
    | .ok (.complete ack data) => change fun s => ((s.addReliable ack).2.emit (.downloadComplete d.name data))
    | .ok (.failed reason) => change (·.emit (.downloadFailed d.name reason))
    | .error e =>
      change fun s => { s with download := some d }
      match e with
      | .downloadBlock _ _ => pure ()
      | e => failNet e

def part (code : UInt8) : ServerOp → ParseStep Unit
  | .nop => pure ()
  | .gameState => gameState
  | .serverCommand => do
    let seq ← wire Wire.readLong
    let text ← wire ((← current).protocol.readString Wire.maxStringChars)
    change fun s => { s with serverCommands := (s.serverCommands.store seq.toUInt32 text).2 }
  | .snapshot => snapshot
  | .download => downloadBlock
  | .centerPrint => do
    let text ← wire ((← current).protocol.readString Wire.maxStringChars)
    change (·.emit (.centerPrint text))
  | .locPrint => do
    let x ← wire Wire.readShort
    let y ← wire Wire.readShort
    let text ← wire ((← current).protocol.readString Wire.maxStringChars)
    change (·.emit (.locationPrint x y text))
  -- the session runs with the default handler of game messages, which knows no game's layout and
  -- refuses every such message; a game's own handler is outside this model
  | .cgameMessage => failNet (.invalidData "game message with no handler")
  | _ => failNet (.badOpcode code)

def parts : Nat → ParseStep Unit
  | 0 => failNet (.streamOverflow .reading)
  | fuel + 1 => do
    let code ← wire Wire.readByte
    match ServerOp.ofCode? code with
    | none => failNet (.badOpcode code)
    | some .eof => pure ()
    | some op => do
      part code op
      parts fuel

end ParseStep

namespace SessionStep

open ClientSession

/-- Reads a whole server message: its sequence and the acknowledged reliable command, which
deciphers the rest, then its parts, then the server commands it brought. -/
def parseServerMessage (message : List UInt8) : SessionStep Unit := do
  if message.length < 4 + Cipher.decodeStart then
    throw (.net (.badHeader s!"{message.length} byte server message"))
  let sequence := Netchan.readLe32 message
  let ack := Netchan.readLe32 (message.drop 4)
  let s ← get
  let command := (s.reliable.commandAt ack).toUTF8.toList
  let message := Cipher.incoming s.encoding sequence command message (4 + Cipher.decodeStart)
  set { s with serverMessageSequence := sequence, reliable := s.reliable.updateAcknowledge ack }
  let read : ParseStep Unit := do
    let _ ← ParseStep.wire Wire.readLong
    let _ ← ParseStep.wire Wire.readLong
    ParseStep.parts (← ParseStep.wire Wire.readBudget)
  let m := Message.onStream (ByteStream.fixedFull ⟨message.toArray⟩)
  let (r, _, s) := (ExceptT.run read).run (m, ← get)
  set s
  match r with
  | .error e => throw e
  | .ok () => executeServerCommands ((← get).serverCommands.capacity + 1)

/-- Handles one datagram from the server. Out-of-band answers that do not read, in-band ones
before the channel is up, and in-band messages that fail with a network error are dropped. -/
def handleDatagram (packet : List UInt8) : SessionStep Unit := do
  if OutOfBand.isOutOfBand packet then
    match OutOfBand.Response.ofBytes packet with
    | .ok response => handleResponse response
    | .error _ => pure ()
  else
    let s ← get
    if s.atLeast .connected then
      let (r, chan) := s.chan.process packet
      set { s with chan := chan }
      if let .ok (some message) := r then
        tryCatch (parseServerMessage message) fun e =>
          match e with
          | .net _ => pure ()
          | e => throw e

def processInbox : Nat → SessionStep Unit
  | 0 => pure ()
  | fuel + 1 => do
    let s ← get
    match s.inbox with
    | [] => pure ()
    | packet :: rest =>
      set { s with inbox := rest }
      handleDatagram packet
      processInbox fuel

/-- One client frame at `realTime`: the waiting datagrams, a connection request if due, and once
connected the clock, a user command and a packet if one is due. -/
def frame (realTime : Int64) : SessionStep Unit := do
  change fun s => { s with realTime := realTime }
  processInbox (← get).inbox.length
  checkForResend
  if (← get).atLeast .connected then
    updateTime
    change ClientSession.createCommand
    if (← get).readyToSend then writePacket

end SessionStep

end Netcode
