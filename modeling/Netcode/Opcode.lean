set_option autoImplicit false

namespace Netcode

/-- Server-to-client message operations. -/
inductive ServerOp where
  | bad | nop | gameState | configString | baseline | serverCommand | download | snapshot
  | centerPrint | locPrint | cgameMessage | eof
  deriving DecidableEq, Repr

namespace ServerOp

def all : List ServerOp :=
  [bad, nop, gameState, configString, baseline, serverCommand, download, snapshot, centerPrint,
    locPrint, cgameMessage, eof]

def code (op : ServerOp) : UInt8 :=
  match op with
  | bad => 0 | nop => 1 | gameState => 2 | configString => 3 | baseline => 4
  | serverCommand => 5 | download => 6 | snapshot => 7 | centerPrint => 8 | locPrint => 9
  | cgameMessage => 10 | eof => 11

def ofCode? (b : UInt8) : Option ServerOp :=
  all.find? (·.code = b)

end ServerOp

/-- Client-to-server message operations. -/
inductive ClientOp where
  | bad | nop | move | moveNoDelta | clientCommand | eof
  deriving DecidableEq, Repr

namespace ClientOp

def code (op : ClientOp) : UInt8 :=
  match op with
  | bad => 0 | nop => 1 | move => 2 | moveNoDelta => 3 | clientCommand => 4 | eof => 5

end ClientOp

end Netcode
