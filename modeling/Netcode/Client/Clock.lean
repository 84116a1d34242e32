import Netcode.Client.Error

set_option autoImplicit false

namespace Netcode

/-- The client's clock, in milliseconds. -/
structure ClientClock where
  realTime : Int32 := 0
  serverTime : Int32 := 0
  oldServerTime : Int32 := 0
  serverTimeDelta : Int32 := 0
  oldFrameServerTime : Int32 := 0
  extrapolated : Bool := false
  deriving DecidableEq, Repr, Inhabited

namespace ClientClock

def resetTime : Int32 := 500

def fastAdjustTime : Int32 := 100

/-- Synchronizes to the first snapshot after a game state. -/
def firstSnapshot (c : ClientClock) (realTime snapTime : Int32) : ClientClock :=
  { c with
    realTime := realTime
    serverTimeDelta := snapTime - realTime
    oldServerTime := snapTime
    serverTime := snapTime
    oldFrameServerTime := snapTime
    extrapolated := false }

def adjustDelta (c : ClientClock) (snapTime : Int32) : ClientClock :=
  let newDelta := snapTime - c.realTime
  let offBy := newDelta - c.serverTimeDelta
  let offBy := if offBy < 0 then -offBy else offBy
  if offBy > resetTime then
    { c with serverTimeDelta := newDelta, oldServerTime := snapTime, serverTime := snapTime }
  else if offBy > fastAdjustTime then
    { c with serverTimeDelta := (c.serverTimeDelta + newDelta) >>> 1 }
  else if c.extrapolated then
    { c with extrapolated := false, serverTimeDelta := c.serverTimeDelta - 2 }
  else
    { c with serverTimeDelta := c.serverTimeDelta + 1 }

/-- Advances the clock to `realTime` given the newest snapshot's time, refusing a snapshot older
than the one of the previous frame. -/
def advance (c : ClientClock) (realTime snapTime : Int32) (newSnapshot : Bool) (nudge : Int32) :
    Except ClientError ClientClock :=
  let c := { c with realTime := realTime }
  if snapTime < c.oldFrameServerTime then .error (.serverTimeBackward c.oldFrameServerTime snapTime)
  else
    let shown := realTime + c.serverTimeDelta - nudge
    let shown := if shown < c.oldServerTime then c.oldServerTime else shown
    let c := { c with
      oldFrameServerTime := snapTime
      serverTime := shown
      oldServerTime := shown
      extrapolated := c.extrapolated || realTime + c.serverTimeDelta ≥ snapTime - 5 }
    .ok (if newSnapshot then c.adjustDelta snapTime else c)

end ClientClock

end Netcode
