import Netcode.Client.Settings
import Netcode.Client.Clock
import Netcode.Client.Download
import Netcode.OutOfBand
import Netcode.Channel.Netchan
import Netcode.Channel.Reliable
import Netcode.State.Snapshot
import Netcode.Input.Command

set_option autoImplicit false

namespace Netcode

/-- How far a connection has come, in order. -/
inductive ConnectionState where
  | disconnected
  | challenging
  | connecting
  | connected
  | primed
  | active
  deriving DecidableEq, Repr, Inhabited

namespace ConnectionState

def rank : ConnectionState → Nat
  | .disconnected => 0
  | .challenging => 1
  | .connecting => 2
  | .connected => 3
  | .primed => 4
  | .active => 5

def atLeast (s t : ConnectionState) : Bool :=
  t.rank ≤ s.rank

instance : ToString ConnectionState where
  toString
    | .disconnected => "Disconnected"
    | .challenging => "Challenging"
    | .connecting => "Connecting"
    | .connected => "Connected"
    | .primed => "Primed"
    | .active => "Active"

end ConnectionState

/-- What the session tells the embedding program. -/
inductive SessionEvent where
  | gamestate (g : GameState)
  | configString (index : Nat) (value : String)
  | serverIdChanged (old new : UInt32)
  | snapshot (s : Snapshot)
  | serverRestart
  | serverCommand (args : List String)
  | stufftext (text : String)
  | print (text : String)
  | centerPrint (text : String)
  | locationPrint (x y : Int16) (text : String)
  | downloadComplete (name : String) (data : List UInt8)
  | downloadFailed (name reason : String)
  | disconnect (reason : String)
  | infoResponse (info : InfoString)
  | statusResponse (info : InfoString) (players : List OutOfBand.StatusPlayer)

/-- What the client remembers of a packet it sent: when, the server time of its last command
and how many commands it had made by then. -/
structure OutPacket where
  realTime : Int32
  serverTime : Int32
  cmdNumber : UInt32
  deriving DecidableEq, Repr

/-- A client session. -/
structure ClientSession where
  settings : ClientSettings
  protocol : Protocol
  state : ConnectionState := .disconnected
  userinfo : InfoString
  realTime : Int64 := 0
  connectTime : Option Int64 := none
  connectAttempts : UInt32 := 0
  challenge : UInt32 := 0
  chan : Netchan
  encoding : UInt32 := 0
  reliable : ReliableSequence
  serverCommands : CommandSequence
  serverMessageSequence : UInt32 := 0
  lastPacketSent : Option Int64 := none
  gamestate : GameState
  serverId : UInt32 := 0
  bigConfigString : BigConfigString := {}
  snapshots : SnapshotManager := {}
  newSnapshots : Bool := false
  clock : ClientClock := {}
  input : UserCmd × UserEyes := default
  cmds : Array UserCmd
  eyes : Array UserEyes
  cmdNumber : UInt32 := 0
  outPackets : Array (Option OutPacket)
  download : Option Download := none
  inbox : List (List UInt8) := []
  outbox : Array (List UInt8) := #[]
  events : Array SessionEvent := #[]

/-- A step on a session that may fail; a failure keeps what the step changed before it. -/
abbrev SessionStep := ExceptT ClientError (StateM ClientSession)

namespace ClientSession

def maxReliableCommands : Nat := 64

def cmdBackup : Nat := 128

def packetBackup : Nat := 32

def maxPacketCmds : Nat := 32

def retransmitTimeout : Int64 := 3000

def maxConnectAttempts : UInt32 := 5

def heartbeatTime : Int32 := 1000

def cmdSlot (n : UInt32) : Nat :=
  n.toNat % cmdBackup

def packetSlot (n : UInt32) : Nat :=
  n.toNat % packetBackup

def new (settings : ClientSettings) (userinfo : InfoString) : Except ClientError ClientSession :=
  match Protocol.ofVersion settings.protocol with
  | .error e => .error (.net e)
  | .ok p => .ok {
      settings := settings
      protocol := p
      userinfo := userinfo
      chan := Netchan.new .client settings.qport
      reliable := ReliableSequence.new maxReliableCommands
      serverCommands := CommandSequence.new maxReliableCommands
      gamestate := GameState.new p.limits
      cmds := Array.replicate cmdBackup default
      eyes := Array.replicate cmdBackup default
      outPackets := Array.replicate packetBackup none }

/-- Forgets the connection: its state, channel, rings, game state, snapshots, clock, packets and
download. The input, the user commands made and the userinfo stay. -/
def reset (s : ClientSession) : ClientSession :=
  { s with
    state := .disconnected
    connectTime := none
    connectAttempts := 0
    challenge := 0
    chan := Netchan.new .client s.settings.qport
    encoding := 0
    reliable := ReliableSequence.new maxReliableCommands
    serverCommands := CommandSequence.new maxReliableCommands
    serverMessageSequence := 0
    lastPacketSent := none
    gamestate := GameState.new s.protocol.limits
    serverId := 0
    bigConfigString := {}
    snapshots := {}
    newSnapshots := false
    clock := {}
    cmdNumber := 0
    outPackets := Array.replicate packetBackup none
    download := none }

def realMs (s : ClientSession) : Int32 :=
  s.realTime.toInt32

def atLeast (s : ClientSession) (t : ConnectionState) : Bool :=
  s.state.atLeast t

def emit (s : ClientSession) (e : SessionEvent) : ClientSession :=
  { s with events := s.events.push e }

def send (s : ClientSession) (packet : List UInt8) : ClientSession :=
  { s with outbox := s.outbox.push packet }

def takeEvents (s : ClientSession) : List SessionEvent × ClientSession :=
  (s.events.toList, { s with events := #[] })

def takeOutbox (s : ClientSession) : List (List UInt8) × ClientSession :=
  (s.outbox.toList, { s with outbox := #[] })

def deliver (s : ClientSession) (packet : List UInt8) : ClientSession :=
  { s with inbox := s.inbox ++ [packet] }

def clientNum (s : ClientSession) : Int32 :=
  s.gamestate.clientNum

def snapshot (s : ClientSession) (messageNum : UInt32) : Option Snapshot :=
  s.snapshots.get? messageNum

def currentSnapshot (s : ClientSession) : Option Snapshot :=
  s.snapshots.latest?.bind fun _ => s.snapshots.get? s.snapshots.current.messageNum

def radar (s : ClientSession) : Option RadarBlip :=
  s.snapshots.latest?.bind fun c => s.protocol.readRadar c.ps.radarInfo

def connect (s : ClientSession) : ClientSession :=
  { s.reset with state := .challenging }

def addReliable (s : ClientSession) (cmd : String) : Bool × ClientSession :=
  let (added, r) := s.reliable.add cmd
  (added, { s with reliable := r })

def setUserinfo (s : ClientSession) (info : InfoString) : ClientSession :=
  let s := { s with userinfo := info }
  if s.atLeast .connected then (s.addReliable s!"userinfo \"{info}\"").2 else s

def updateUserinfo (s : ClientSession) (cvars : CvarRegistry) : ClientSession × CvarRegistry :=
  if cvars.userinfoModified then (s.setUserinfo cvars.userinfo, { cvars with userinfoModified := false })
  else (s, cvars)

def setInput (s : ClientSession) (cmd : UserCmd) (eyes : UserEyes) : ClientSession :=
  { s with input := (cmd, eyes) }

def startDownload (s : ClientSession) (name : String) : Except ClientError ClientSession :=
  if !s.atLeast .connected then .error .notConnected
  else
    let d := Download.new name
    .ok { (s.addReliable d.request).2 with download := some d }

def requestInfo (s : ClientSession) : ClientSession :=
  s.send OutOfBand.Request.getInfo.toBytes

def requestStatus (s : ClientSession) : ClientSession :=
  s.send OutOfBand.Request.getStatus.toBytes

def dropConnection (s : ClientSession) (reason : String) : ClientSession :=
  (s.emit (.disconnect reason)).reset

/-- Takes the server id of a changed system info string. A change from a known id reports it and
drops the snapshots of the old server. -/
def systemInfoChanged (s : ClientSession) : ClientSession :=
  -- the session's table has the protocol's slots, so the read never panics here
  let id := s.gamestate.serverId.toOption.join.getD 0
  if id = s.serverId then s
  else
    let s := if s.serverId ≠ 0 then
        { s.emit (.serverIdChanged s.serverId id) with snapshots := {}, newSnapshots := false }
      else s
    { s with serverId := id }

end ClientSession

namespace SessionStep

def change (f : ClientSession → ClientSession) : SessionStep Unit :=
  modify f

def attempt (f : ClientSession → Except ClientError ClientSession) : SessionStep Unit := do
  match f (← get) with
  | .ok s => set s
  | .error e => throw e

def run {α : Type} (step : SessionStep α) (s : ClientSession) : Except ClientError α × ClientSession :=
  (ExceptT.run step).run s

end SessionStep

end Netcode
