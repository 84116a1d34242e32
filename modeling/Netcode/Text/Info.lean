import Netcode.Text.Tokens

set_option autoImplicit false

namespace Netcode

/-- Key/value pairs in the order they were added. -/
structure InfoString where
  pairs : List (String × String) := []
  deriving DecidableEq, Repr, Inhabited

namespace InfoString

def sameKey (a b : String) : Bool :=
  a.toList.map Char.toLower == b.toList.map Char.toLower

def body (src : String) : List Char :=
  match src.toList with
  | '\\' :: rest => rest
  | cs => cs

/-- Pairs up consecutive parts; a trailing key without a value is dropped. -/
def pairUp : List String → List (String × String)
  | k :: v :: rest => (k, v) :: pairUp rest
  | _ => []

def parse (src : String) : InfoString :=
  ⟨pairUp (((body src).splitOn '\\').map String.ofList)⟩

def get (info : InfoString) (key : String) : Option String :=
  (info.pairs.find? fun (k, _) => sameKey k key).map (·.2)

def remove (info : InfoString) (key : String) : InfoString :=
  ⟨info.pairs.filter fun (k, _) => !sameKey k key⟩

/-- Removes the characters an info string cannot hold: backslash, double quote and
semicolon. -/
def clean (s : String) : String :=
  String.ofList (s.toList.filter fun c => c ≠ '\\' ∧ c ≠ '"' ∧ c ≠ ';')

/-- Sets a key, replacing any pair with the same key and moving it to the end; an empty value
removes the key. -/
def set (info : InfoString) (key value : String) : InfoString :=
  let key := clean key
  let value := clean value
  let rest := info.remove key
  if value.isEmpty then rest else ⟨rest.pairs ++ [(key, value)]⟩

def isEmpty (info : InfoString) : Bool :=
  info.pairs.isEmpty

def render (info : InfoString) : String :=
  info.pairs.foldl (fun acc (k, v) => acc ++ "\\" ++ k ++ "\\" ++ v) ""

instance : ToString InfoString := ⟨render⟩

/-- The value of the first key that matches, pairing the parts up as they come; a trailing key
without a value matches nothing. -/
def findPaired (key : String) : List String → Option String
  | k :: v :: rest => if sameKey k key then some v else findPaired key rest
  | _ => none

def valueForKey (src key : String) : Option String :=
  findPaired key (((body src).splitOn '\\').map String.ofList)

end InfoString

end Netcode
