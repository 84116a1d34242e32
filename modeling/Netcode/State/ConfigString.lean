set_option autoImplicit false

namespace Netcode

/-- What a config string slot holds; a range's payload is the position within the range. -/
inductive ConfigKind where
  | serverInfo
  | systemInfo
  | fixed (n : Nat)
  | model (n : Nat)
  | objective (n : Nat)
  | sound (n : Nat)
  | image (n : Nat)
  | lightStyle (n : Nat)
  | player (n : Nat)
  | weapon (n : Nat)
  | team (n : Nat)
  | generalString (n : Nat)
  | spectators
  | allies
  | axis
  | soundtrack
  | other (n : Nat)
  deriving DecidableEq, Repr

namespace ConfigKind

def serverInfoIndex : Nat := 0

def systemInfoIndex : Nat := 1

def models : Nat := 32
def objectives : Nat := models + 1024
def sounds : Nat := objectives + 20
def images : Nat := sounds + 512
def lightStyles : Nat := images + 64
def players : Nat := lightStyles + 32
def weapons : Nat := players + 64
def teams : Nat := weapons + 48
def generalStrings : Nat := teams + 64
/-- The spectators slot; allies, axis and the soundtrack follow it. -/
def spectatorsIndex : Nat := generalStrings + 64

def maxConfigStrings : Nat := 2736

def of (i : Nat) : ConfigKind :=
  if i = serverInfoIndex then serverInfo
  else if i = systemInfoIndex then systemInfo
  else if i < models then fixed i
  else if i < objectives then model (i - models)
  else if i < sounds then objective (i - objectives)
  else if i < images then sound (i - sounds)
  else if i < lightStyles then image (i - images)
  else if i < players then lightStyle (i - lightStyles)
  else if i < weapons then player (i - players)
  else if i < teams then weapon (i - weapons)
  else if i < generalStrings then team (i - teams)
  else if i < spectatorsIndex then generalString (i - generalStrings)
  else if i = spectatorsIndex then spectators
  else if i = spectatorsIndex + 1 then allies
  else if i = spectatorsIndex + 2 then axis
  else if i = spectatorsIndex + 3 then soundtrack
  else other i

/-- Whether the slot names an asset the client may need to load: a model, a sound or an
image. -/
def isAsset : ConfigKind → Bool
  | model _ | sound _ | image _ => true
  | _ => false

def name : ConfigKind → String
  | serverInfo => "ServerInfo" | systemInfo => "SystemInfo" | fixed _ => "Fixed"
  | model _ => "Model" | objective _ => "Objective" | sound _ => "Sound" | image _ => "Image"
  | lightStyle _ => "LightStyle" | player _ => "Player" | weapon _ => "Weapon" | team _ => "Team"
  | generalString _ => "GeneralString" | spectators => "Spectators" | allies => "Allies"
  | axis => "Axis" | soundtrack => "Soundtrack" | other _ => "Other"

def position? : ConfigKind → Option Nat
  | fixed n | model n | objective n | sound n | image n | lightStyle n | player n | weapon n
  | team n | generalString n | other n => some n
  | _ => none

end ConfigKind

end Netcode
