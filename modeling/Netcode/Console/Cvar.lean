import Netcode.Float.Decimal
import Netcode.Text.Info

set_option autoImplicit false

namespace Netcode

/-- A failure of the console variable registry. -/
inductive CvarError where
  | notANumber (name value : String)
  | alreadyRegistered (name : String)
  | unregistered (name : String)
  | invalidUserinfo (name value : String)
  deriving DecidableEq, Repr

namespace CvarError

def name : CvarError → String
  | .notANumber _ _ => "NotANumber"
  | .alreadyRegistered _ => "AlreadyRegistered"
  | .unregistered _ => "Unregistered"
  | .invalidUserinfo _ _ => "InvalidUserinfo"

def message : CvarError → String
  | .notANumber name value => s!"Cvar {name} is not a number (\"{value}\")"
  | .alreadyRegistered name => s!"Cvar {name} is already registered"
  | .unregistered name => s!"Unknown cvar {name}"
  | .invalidUserinfo name value => s!"Userinfo cvar {name} cannot hold \"{value}\""

end CvarError

structure Cvar where
  value : String
  userinfo : Bool
  default : String
  deriving DecidableEq, Repr

/-- The registered variables, in the order they were registered, and whether the userinfo
changed since it was last taken. -/
structure CvarRegistry where
  cvars : List (String × Cvar) := []
  userinfoModified : Bool := false
  deriving Repr, Inhabited

/-- A step on the registry that may fail; a failure keeps what the step changed before it. -/
abbrev CvarStep := ExceptT CvarError (StateM CvarRegistry)

namespace CvarRegistry

def find? (r : CvarRegistry) (name : String) : Option Cvar :=
  (r.cvars.find? (·.1 = name)).map (·.2)

def contains (r : CvarRegistry) (name : String) : Bool :=
  (r.find? name).isSome

def update (r : CvarRegistry) (name : String) (c : Cvar) : CvarRegistry :=
  { r with cvars := r.cvars.map fun (n, old) => (n, if n = name then c else old) }

/-- The userinfo: every userinfo variable, by name in ascending order. -/
def userinfo (r : CvarRegistry) : InfoString :=
  let names := ((r.cvars.filter (·.2.userinfo)).map (·.1)).mergeSort (fun a b => decide (a ≤ b))
  names.foldl (fun info n => info.set n ((r.find? n).map (·.value) |>.getD "")) {}

/-- Whether a userinfo value holds a backslash, double quote or semicolon. -/
def breaksUserinfo (value : String) : Bool :=
  value.toList.any fun c => c = '\\' ∨ c = '"' ∨ c = ';'

end CvarRegistry

namespace CvarStep

def lookup (name : String) : CvarStep Cvar := do
  match (← get).find? name with
  | some c => pure c
  | none => throw (.unregistered name)

def register (name default : String) (userinfo : Bool := false) : CvarStep Unit := do
  let r ← get
  if r.contains name then throw (.alreadyRegistered name)
  set { r with cvars := r.cvars ++ [(name, ({ value := default, userinfo, default } : Cvar))] }

def getString (name : String) : CvarStep String :=
  return (← lookup name).value

/-- The value of a variable as a number. A value that does not read as one is replaced by the
default; if the default does not read either, the failure names the value that was there. -/
def getValue (name : String) : CvarStep Single := do
  let c ← lookup name
  match Single.parse? c.value with
  | some v => pure v
  | none =>
    modify fun r => r.update name { c with value := c.default }
    match Single.parse? c.default with
    | some v => pure v
    | none => throw (.notANumber name c.value)

/-- Sets a variable. A userinfo variable refuses the characters of the info string framing, and
a change to one marks the userinfo as modified. -/
def setString (name value : String) : CvarStep Unit := do
  let c ← lookup name
  if c.userinfo ∧ CvarRegistry.breaksUserinfo value then throw (.invalidUserinfo name value)
  if c.value ≠ value then
    modify fun r => { r.update name { c with value := value } with
                      userinfoModified := r.userinfoModified || c.userinfo }

def takeUserinfoModified : CvarStep Bool :=
  modifyGet fun r => (r.userinfoModified, { r with userinfoModified := false })

end CvarStep

end Netcode
