import Netcode.Console.Cvar

set_option autoImplicit false

namespace Netcode

/-- Registers the client's variables in order; a failure leaves the earlier ones registered. -/
def registerClientCvars : CvarStep Unit := do
  CvarStep.register "name" "UnnamedSoldier" true
  CvarStep.register "rate" "5000" true
  CvarStep.register "snaps" "20" true
  CvarStep.register "cl_maxpackets" "30"
  CvarStep.register "cl_timenudge" "0"
  CvarStep.register "cl_shownet" "0"
  CvarStep.register "cl_maxprocesstime" "50"
  CvarStep.register "net_qport" "0"
  CvarStep.register "protocol" "17"

/-- What a client session is configured with. -/
structure ClientSettings where
  maxPackets : UInt32 := 30
  timeNudge : Int32 := 0
  showNet : Bool := false
  qport : UInt16 := 1
  protocol : UInt32 := 17
  maxProcessTime : Int64 := 50
  deriving DecidableEq, Repr, Inhabited

namespace ClientSettings

/-- Reads the settings from the variables, each number cut toward zero into its type and the
packet rate and nudge held to their ranges. -/
def fromCvars : CvarStep ClientSettings := do
  let qport := (← CvarStep.getValue "net_qport").toUInt16Sat
  let maxPackets := (← CvarStep.getValue "cl_maxpackets").toUInt32Sat
  let timeNudge := (← CvarStep.getValue "cl_timenudge").toInt32Sat
  let showNet := !(← CvarStep.getValue "cl_shownet").eqValue .zero
  let protocol := (← CvarStep.getValue "protocol").toUInt32Sat
  let maxProcessTime := (← CvarStep.getValue "cl_maxprocesstime").toInt64Sat
  return {
    maxPackets := min (max maxPackets 15) 125
    timeNudge := min (max timeNudge (-30)) 30
    showNet := showNet
    qport := qport
    protocol := protocol
    maxProcessTime := maxProcessTime }

/-- Settles a qport of 0 with a drawn number, made odd so that it is never 0. -/
def withDrawnQport (s : ClientSettings) (draw : UInt16) : ClientSettings :=
  if s.qport = 0 then { s with qport := draw ||| 1 } else s

end ClientSettings

end Netcode
