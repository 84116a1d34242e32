import Netcode.Float.Single

set_option autoImplicit false

namespace Netcode

/-- An IEEE binary interchange format: the significand's width with its hidden bit, and the
exponent field's width. -/
structure BinaryFormat where
  precision : Nat
  exponentBits : Nat

namespace BinaryFormat

def single : BinaryFormat := ⟨24, 8⟩

def double : BinaryFormat := ⟨53, 11⟩

def bias (f : BinaryFormat) : Nat :=
  Nat.pow 2 (f.exponentBits - 1) - 1

def topField (f : BinaryFormat) : Nat :=
  Nat.pow 2 f.exponentBits - 1

def unitMin (f : BinaryFormat) : Int :=
  1 - (f.bias : Int) - ((f.precision : Int) - 1)

def ratioAtLeast (num den : Nat) (k : Int) : Bool :=
  if 0 ≤ k then den * Nat.pow 2 k.toNat ≤ num else den ≤ num * Nat.pow 2 (-k).toNat

def ratioLog2 (num den : Nat) : Int :=
  let guess : Int := (num.log2 : Int) - den.log2
  if ratioAtLeast num den guess then guess else guess - 1

/-- The quotient of `num / den` by `2 ^ e`, rounded to the nearest integer, ties to even. -/
def roundScaled (num den : Nat) (e : Int) : Nat :=
  let n := if 0 ≤ e then num else num * Nat.pow 2 (-e).toNat
  let d := if 0 ≤ e then den * Nat.pow 2 e.toNat else den
  let q := n / d
  let r := n % d
  if 2 * r > d ∨ (2 * r = d ∧ q % 2 = 1) then q + 1 else q

/-- The sign-less pattern nearest to `num / den`, ties to even; past the largest finite value it
rounds to infinity from the halfway point on. -/
def roundRatio (f : BinaryFormat) (num den : Nat) : Nat :=
  if num = 0 ∨ den = 0 then 0
  else
    let p := f.precision
    let e₀ := max (ratioLog2 num den - ((p : Int) - 1)) f.unitMin
    let q₀ := roundScaled num den e₀
    let (q, e) := if q₀ = Nat.pow 2 p then (Nat.pow 2 (p - 1), e₀ + 1) else (q₀, e₀)
    if q < Nat.pow 2 (p - 1) then q
    else
      let field := e + ((p : Int) - 1) + f.bias
      if field ≥ f.topField then f.topField * Nat.pow 2 (p - 1)
      else field.toNat * Nat.pow 2 (p - 1) + (q - Nat.pow 2 (p - 1))

/-- The sign-less bit pattern nearest to `digits * 10 ^ exponent`. Exponents far beyond the
range of any format are settled without computing the power. -/
def roundDecimal (f : BinaryFormat) (digits : Nat) (exponent : Int) : Nat :=
  let size : Int := (Nat.repr digits).length
  if digits = 0 then 0
  else if size + exponent > 400 then f.topField * Nat.pow 2 (f.precision - 1)
  else if size + exponent < -400 then 0
  else if 0 ≤ exponent then f.roundRatio (digits * Nat.pow 10 exponent.toNat) 1
  else f.roundRatio digits (Nat.pow 10 (-exponent).toNat)

end BinaryFormat

inductive FloatText where
  | finite (negative : Bool) (digits : Nat) (exponent : Int)
  | infinite (negative : Bool)
  | nan (negative : Bool)
  deriving DecidableEq, Repr

namespace FloatText

def digitRun : List Char → Nat × Nat × List Char
  | c :: rest =>
    if c.isDigit then
      let (value, count, tail) := digitRun rest
      (value + (c.toNat - '0'.toNat) * Nat.pow 10 count, count + 1, tail)
    else (0, 0, c :: rest)
  | [] => (0, 0, [])

def signOf : List Char → Bool × List Char
  | '+' :: rest => (false, rest)
  | '-' :: rest => (true, rest)
  | cs => (false, cs)

def exponentOf (cs : List Char) : Option Int :=
  let (negative, rest) := signOf cs
  let (value, count, tail) := digitRun rest
  if count = 0 ∨ tail ≠ [] then none
  else some (if negative then -(value : Int) else value)

/-- Reads an optional sign, then `inf`, `infinity` or `nan` in any case, or digits with an optional
point and exponent and at least one digit; nothing may follow. -/
def parse? (text : String) : Option FloatText :=
  let (negative, rest) := signOf text.toList
  let word := String.ofList (rest.map Char.toLower)
  if word = "inf" ∨ word = "infinity" then some (.infinite negative)
  else if word = "nan" then some (.nan negative)
  else
    let (whole, wholeCount, afterWhole) := digitRun rest
    let (fraction, fractionCount, afterFraction) :=
      match afterWhole with
      | '.' :: more => digitRun more
      | _ => (0, 0, afterWhole)
    if wholeCount + fractionCount = 0 then none
    else
      let mantissa := whole * Nat.pow 10 fractionCount + fraction
      let scale : Option Int := match afterFraction with
        | [] => some 0
        | c :: more => if c = 'e' ∨ c = 'E' then exponentOf more else none
      scale.map fun e => .finite negative mantissa (e - fractionCount)

end FloatText

namespace Single

def ofSignAndBits (negative : Bool) (bits : Nat) : Single :=
  ⟨UInt32.ofNat (bits + if negative then Nat.pow 2 31 else 0)⟩

def ofText (t : FloatText) : Single :=
  match t with
  | .finite negative digits exponent =>
    ofSignAndBits negative (BinaryFormat.single.roundDecimal digits exponent)
  | .infinite negative => ofSignAndBits negative 0x7F800000
  | .nan negative => ofSignAndBits negative 0x7FC00000

def parse? (text : String) : Option Single :=
  (FloatText.parse? text).map ofText

/-- Narrows the double-precision value with bit pattern `bits` to the nearest single-precision
value, ties to even. NaNs keep their sign and the top of their payload, and become quiet. -/
def ofDoubleBits (bits : UInt64) : Single :=
  let negative := bits >>> 63 == 1
  let field := ((bits >>> 52) &&& 0x7FF).toNat
  let fraction := (bits &&& 0xFFFFFFFFFFFFF).toNat
  if field = 0x7FF then
    if fraction = 0 then ofSignAndBits negative 0x7F800000
    else ofSignAndBits negative (0x7FC00000 ||| (fraction >>> 29))
  else
    let significand := if field = 0 then fraction else fraction + Nat.pow 2 52
    let e : Int := (max field 1 : Nat) - (1075 : Int)
    let magnitude :=
      if 0 ≤ e then BinaryFormat.single.roundRatio (significand * Nat.pow 2 e.toNat) 1
      else BinaryFormat.single.roundRatio significand (Nat.pow 2 (-e).toNat)
    ofSignAndBits negative magnitude

/-- The value nearest to `digits * 10 ^ exponent` in double precision, narrowed to single
precision: the two roundings of a decimal read as a double and then stored as a single. -/
def ofDecimalViaDouble (negative : Bool) (digits : Nat) (exponent : Int) : Single :=
  let double := BinaryFormat.double.roundDecimal digits exponent
  ofDoubleBits (UInt64.ofNat (double + if negative then Nat.pow 2 63 else 0))

/-- The exact value of a finite number as a decimal with a point: every digit of the binary
fraction is written, and at least one digit follows the point. -/
def toExactDecimal (x : Single) : String :=
  let sign := if x.signBit then "-" else ""
  let e := x.scaleExponent
  if 150 ≤ e then sign ++ Nat.repr (x.significand * Nat.pow 2 (e - 150)) ++ ".0"
  else
    let k := 150 - e
    let scaled := x.significand * Nat.pow 5 k
    let whole := scaled / Nat.pow 10 k
    let fraction := Nat.repr (scaled % Nat.pow 10 k)
    let padded := String.ofList (List.replicate (k - fraction.length) '0') ++ fraction
    let trimmed := (padded.toList.reverse.dropWhile (· = '0')).reverse
    let shown := if trimmed.isEmpty then "0" else String.ofList trimmed
    sign ++ Nat.repr whole ++ "." ++ shown

end Single

end Netcode
