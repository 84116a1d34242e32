import Netcode.Text.Utf8

set_option autoImplicit false

namespace Netcode

namespace Text

/-- Whether a character has the Unicode `White_Space` property. -/
def isWhitespace (c : Char) : Bool :=
  let n := c.toNat
  (0x09 ≤ n ∧ n ≤ 0x0D) ∨ n = 0x20 ∨ n = 0x85 ∨ n = 0xA0 ∨ n = 0x1680 ∨
    (0x2000 ≤ n ∧ n ≤ 0x200A) ∨ n = 0x2028 ∨ n = 0x2029 ∨ n = 0x202F ∨ n = 0x205F ∨
    n = 0x3000

def isControl (c : Char) : Bool :=
  let n := c.toNat
  n < 0x20 ∨ (0x7F ≤ n ∧ n ≤ 0x9F)

def isSeparator (c : Char) : Bool :=
  isWhitespace c || isControl c

def trimStart (s : String) : String :=
  String.ofList (s.toList.dropWhile isWhitespace)

def trim (s : String) : String :=
  String.ofList ((s.toList.dropWhile isWhitespace).reverse.dropWhile isWhitespace).reverse

def trimEnd (s : String) : String :=
  String.ofList (s.toList.reverse.dropWhile isWhitespace).reverse

def dropCarriageReturn (line : String) : String :=
  if line.toList.getLast? = some '\r' then String.ofList line.toList.dropLast else line

/-- The lines of a text: it splits at each newline, a carriage return just before a newline
belongs to the line ending, and a final newline opens no empty line. -/
def lines (s : String) : List String :=
  let parts := (s.toList.splitOn '\n').map String.ofList
  let last := parts.getLastD ""
  parts.dropLast.map dropCarriageReturn ++ (if last.isEmpty then [] else [last])

def quoted : List Char → List Char × List Char
  | [] => ([], [])
  | '"' :: rest => ([], rest)
  | c :: rest => let (arg, after) := quoted rest; (c :: arg, after)

/-- The text of an unquoted argument and what follows it; the flag is set when `//` ended the
line inside or right after it. -/
def bare : List Char → List Char × List Char × Bool
  | [] => ([], [], false)
  | '/' :: '/' :: _ => ([], [], true)
  | c :: rest =>
    if isSeparator c then ([], c :: rest, false)
    else let (arg, after, ended) := bare rest; (c :: arg, after, ended)

def tokenizeChars : Nat → List Char → List String
  | 0, _ => []
  | fuel + 1, cs =>
    match cs.dropWhile isSeparator with
    | [] => []
    | '"' :: rest =>
      let (arg, after) := quoted rest
      String.ofList arg :: tokenizeChars fuel after
    | start =>
      let (arg, after, ended) := bare start
      if ended then (if arg.isEmpty then [] else [String.ofList arg])
      else String.ofList arg :: tokenizeChars fuel after

/-- The arguments of a line. Every argument consumes at least one character, so a line of `n`
characters has at most `n` arguments. -/
def tokenize (line : String) : List String :=
  tokenizeChars (line.length + 1) line.toList

/-- The rest of a line after its first argument: after the closing quote of a quoted one, or
from the first whitespace after a bare one. -/
def skipArg : List Char → List Char
  | '"' :: rest =>
    match rest.dropWhile (· ≠ '"') with
    | [] => []
    | _ :: after => after
  | cs => cs.dropWhile fun c => !isWhitespace c

def argsFromChars : Nat → List Char → List Char
  | 0, cs => cs
  | n + 1, cs => argsFromChars n ((skipArg cs).dropWhile isWhitespace)

/-- The rest of a line after `n` arguments, without leading whitespace. -/
def argsFrom (line : String) (n : Nat) : String :=
  String.ofList (argsFromChars n (line.toList.dropWhile isWhitespace))

def digitsValue (cs : List Char) : Option Nat :=
  if cs.isEmpty then none
  else cs.foldlM (fun acc c => if c.isDigit then some (acc * 10 + (c.toNat - 48)) else none) 0

def parseInteger (signed : Bool) (s : String) : Option Int :=
  match s.toList with
  | '+' :: rest => (digitsValue rest).map Int.ofNat
  | '-' :: rest => if signed then (digitsValue rest).map fun n => -(n : Int) else none
  | cs => (digitsValue cs).map Int.ofNat

def parseInt32 (s : String) : Option Int32 :=
  (parseInteger true s).bind fun n => if -Int.pow 2 31 ≤ n ∧ n < Int.pow 2 31 then some (Int32.ofInt n) else none

def parseInt64 (s : String) : Option Int64 :=
  (parseInteger true s).bind fun n => if -Int.pow 2 63 ≤ n ∧ n < Int.pow 2 63 then some (Int64.ofInt n) else none

def parseUInt32 (s : String) : Option UInt32 :=
  (parseInteger false s).bind fun n => if n < Int.pow 2 32 then some (UInt32.ofNat n.toNat) else none

/-- Reads bytes up to and including a zero: the text before the zero, decoded lossily, and the
bytes after it. Without a zero every byte is consumed and there is no text. -/
def readCString (bytes : List UInt8) : Option String × List UInt8 :=
  match bytes.span (· ≠ 0) with
  | (text, _ :: rest) => (some (Utf8.decodeLossy text), rest)
  | (_, []) => (none, [])

def readCStrings (bytes : List UInt8) : Nat → List (Option String)
  | 0 => []
  | count + 1 =>
    let (text, rest) := readCString bytes
    text :: readCStrings rest count

end Text

end Netcode
