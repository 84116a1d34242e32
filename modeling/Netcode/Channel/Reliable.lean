set_option autoImplicit false

namespace Netcode

/-- The ring size for a requested capacity: the least power of two at least as large, and at
least one. -/
def ringCapacity (requested : Nat) : Nat :=
  if requested ≤ 1 then 1 else 1 <<< ((requested - 1).log2 + 1)

/-- Outgoing commands awaiting acknowledgement. -/
structure ReliableSequence where
  commands : Array String
  sequence : UInt32 := 0
  acknowledge : UInt32 := 0
  deriving Repr, Inhabited

namespace ReliableSequence

def new (requested : Nat) : ReliableSequence :=
  { commands := Array.replicate (ringCapacity requested) "" }

def capacity (r : ReliableSequence) : Nat :=
  r.commands.size

def slotOf (r : ReliableSequence) (s : UInt32) : Nat :=
  (s &&& (r.capacity.toUInt32 - 1)).toNat

/-- Queues a command. A ring already holding `capacity` unacknowledged commands refuses it
and answers false. -/
def add (r : ReliableSequence) (cmd : String) : Bool × ReliableSequence :=
  if (r.sequence - r.acknowledge).toNat ≥ r.capacity then (false, r)
  else
    let s := r.sequence + 1
    (true, { r with sequence := s, commands := r.commands.set! (r.slotOf s) cmd })

/-- Records the acknowledge the other side sent. One beyond the sequence is clamped to it; one
so far behind that the ring wrapped over it snaps to the sequence; it never moves back. -/
def updateAcknowledge (r : ReliableSequence) (ack : UInt32) : ReliableSequence :=
  let ack := if ack > r.sequence then r.sequence else ack
  let ack := if (r.sequence - ack).toNat > r.capacity then r.sequence else ack
  if ack > r.acknowledge then { r with acknowledge := ack } else r

def commandAt (r : ReliableSequence) (s : UInt32) : String :=
  r.commands.getD (r.slotOf s) ""

def pending (r : ReliableSequence) : List (UInt32 × String) :=
  (List.range (r.sequence - r.acknowledge).toNat).map fun k =>
    let s := r.acknowledge + 1 + k.toUInt32
    (s, r.commandAt s)

def reset (r : ReliableSequence) (s : UInt32) : ReliableSequence :=
  { commands := Array.replicate r.capacity "", sequence := s, acknowledge := s }

end ReliableSequence

/-- Incoming commands awaiting execution, with the sequence each slot was last stored with. -/
structure CommandSequence where
  commands : Array String
  stored : Array UInt32
  sequence : UInt32 := 0
  executed : UInt32 := 0
  deriving Repr, Inhabited

namespace CommandSequence

def new (requested : Nat) : CommandSequence :=
  { commands := Array.replicate (ringCapacity requested) ""
    stored := Array.replicate (ringCapacity requested) 0 }

def capacity (c : CommandSequence) : Nat :=
  c.commands.size

def slotOf (c : CommandSequence) (s : UInt32) : Nat :=
  (s &&& (c.capacity.toUInt32 - 1)).toNat

def clearSlot (c : CommandSequence) (s : UInt32) : CommandSequence :=
  { c with commands := c.commands.set! (c.slotOf s) "", stored := c.stored.set! (c.slotOf s) 0 }

/-- Stores a received command. Duplicates and commands older than the newest are refused;
the sequences a jump skips are emptied and never executed. -/
def store (c : CommandSequence) (s : UInt32) (cmd : String) : Bool × CommandSequence :=
  if s ≤ c.sequence then (false, c)
  else
    let c := if s > c.sequence + 1 then
        let skipped := min (s - c.sequence - 1) c.capacity.toUInt32
        (List.range skipped.toNat).foldl (fun c k => c.clearSlot (s - skipped + k.toUInt32)) c
      else c
    let i := c.slotOf s
    (true, { c with sequence := s, commands := c.commands.set! i cmd, stored := c.stored.set! i s })

/-- The command stored with a sequence still held: one of the last `capacity` received. -/
def commandAt (c : CommandSequence) (s : UInt32) : Option String :=
  if s > c.sequence ∨ (c.sequence - s).toNat ≥ c.capacity then none
  else if c.stored.getD (c.slotOf s) 0 = s then some (c.commands.getD (c.slotOf s) "")
  else none

def rawCommandAt (c : CommandSequence) (s : UInt32) : String :=
  c.commands.getD (c.slotOf s) ""

def advance (c : CommandSequence) : Nat → Option (UInt32 × String) × CommandSequence
  | 0 => (none, c)
  | fuel + 1 =>
    if c.executed < c.sequence then
      let e := c.executed + 1
      let c := { c with executed := e }
      if c.stored.getD (c.slotOf e) 0 = e then (some (e, c.commands.getD (c.slotOf e) ""), c)
      else c.advance fuel
    else (none, c)

/-- The next command to execute, in strict sequence order. Commands overwritten before their
turn are skipped. -/
def nextPending (c : CommandSequence) : Option (UInt32 × String) × CommandSequence :=
  if c.executed ≥ c.sequence then (none, c)
  else
    let c := if (c.sequence - c.executed).toNat > c.capacity then
        { c with executed := c.sequence - c.capacity.toUInt32 }
      else c
    c.advance (c.sequence - c.executed).toNat

def drainFuel (c : CommandSequence) : Nat → List (UInt32 × String) × CommandSequence
  | 0 => ([], c)
  | fuel + 1 =>
    match c.nextPending with
    | (some cmd, c) => let (rest, c) := c.drainFuel fuel; (cmd :: rest, c)
    | (none, c) => ([], c)

/-- Every command ready to execute, in order. Each one handed out moves the executed counter
forward within the last `capacity` sequences, so there are at most `capacity` of them. -/
def drain (c : CommandSequence) : List (UInt32 × String) × CommandSequence :=
  c.drainFuel (c.capacity + 1)

def reset (c : CommandSequence) (s : UInt32) : CommandSequence :=
  { c with sequence := s, executed := s }

end CommandSequence

end Netcode
