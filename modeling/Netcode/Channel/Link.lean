import Netcode.Channel.Netchan

set_option autoImplicit false

namespace Netcode

/-- Both ends of a connection and the datagrams each has sent to the other. -/
structure ChannelLink where
  client : Netchan
  server : Netchan
  toClient : List (List UInt8) := []
  toServer : List (List UInt8) := []

namespace ChannelLink

def new (clientQport serverQport : UInt16) : ChannelLink :=
  { client := Netchan.new .client clientQport, server := Netchan.new .server serverQport }

def chan (l : ChannelLink) : NetSide → Netchan
  | .client => l.client
  | .server => l.server

def inbox (l : ChannelLink) : NetSide → List (List UInt8)
  | .client => l.toClient
  | .server => l.toServer

def outbox (l : ChannelLink) : NetSide → List (List UInt8)
  | .client => l.toServer
  | .server => l.toClient

def withChan (l : ChannelLink) : NetSide → Netchan → ChannelLink
  | .client, c => { l with client := c }
  | .server, c => { l with server := c }

/-- One side sends a message; its datagrams go on the record after those the side sent before.
A message the channel refuses leaves the link as it was. -/
def transmit (l : ChannelLink) (side : NetSide) (data : List UInt8) :
    Except NetError (List (List UInt8) × ChannelLink) := do
  let (sent, c) ← (l.chan side).transmit data
  let l := l.withChan side c
  return (sent, match side with
    | .client => { l with toServer := l.toServer ++ sent }
    | .server => { l with toClient := l.toClient ++ sent })

def process (l : ChannelLink) (side : NetSide) (packet : List UInt8) :
    Except NetError (Option (List UInt8)) × ChannelLink :=
  let (r, c) := (l.chan side).process packet
  (r, l.withChan side c)

end ChannelLink

end Netcode
