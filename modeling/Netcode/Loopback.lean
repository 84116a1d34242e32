import Netcode.Client.Session.Incoming
import Netcode.Server.Endpoint

set_option autoImplicit false

namespace Netcode

/-- A client session and the server end it talks to. -/
structure Loopback where
  client : ClientSession
  server : ServerEndpoint

namespace Loopback

/-- The server sends a message made of `parts`; the datagrams listed in `deliver` (all of them,
in order, if none are listed) reach the client, and indices past the end are skipped. -/
def send (l : Loopback) (parts : List ServerPart) (eof : Bool) (deliver : Option (List Nat)) :
    Except NetError (ServerEndpoint.Sent × Loopback) := do
  let (sent, server) ← l.server.compose parts eof
  let picked := (deliver.getD (List.range sent.datagrams.length)).filterMap (sent.datagrams[·]?)
  return (sent, { client := picked.foldl ClientSession.deliver l.client, server := server })

def receive (l : Loopback) : List (List UInt8 × ClientDatagram) × Loopback :=
  let (sent, client) := l.client.takeOutbox
  let (read, server) := sent.foldl (fun (read, server) packet =>
    let (d, server) := server.receive packet
    (read ++ [(packet, d)], server)) ([], l.server)
  (read, { client := client, server := server })

end Loopback

end Netcode
