import Netcode.Error
import Netcode.Console.Cvar

set_option autoImplicit false

namespace Netcode

/-- A failure of a client session. -/
inductive ClientError where
  | net (cause : NetError)
  | cvar (cause : CvarError)
  | serverTimeBackward (old new : Int32)
  | connectionRejected (message : String)
  | invalidConnectResponse
  | noResponse
  | disconnected (reason : String)
  | notConnected
  deriving DecidableEq, Repr

namespace ClientError

def name : ClientError → String
  | .net _ => "Net"
  | .cvar _ => "Cvar"
  | .serverTimeBackward _ _ => "ServerTimeBackward"
  | .connectionRejected _ => "ConnectionRejected"
  | .invalidConnectResponse => "InvalidConnectResponse"
  | .noResponse => "NoResponse"
  | .disconnected _ => "Disconnected"
  | .notConnected => "NotConnected"

def message : ClientError → String
  | .net _ => "Network error"
  | .cvar _ => "Couldn't read cvar value"
  | .serverTimeBackward old new => s!"Server time went backward ({old} -> {new})"
  | .connectionRejected text => s!"Connection rejected: \"{text}\""
  | .invalidConnectResponse => "Server sent an inappropriate connect response"
  | .noResponse => "No response from server"
  | .disconnected reason => s!"Disconnected: {reason}"
  | .notConnected => "Not connected to a server"

end ClientError

end Netcode
