import RowGraph.Decimal.Layout
import RowGraph.Decimal.Nearest
/-!
Numbers as JSON and GraphQL texts carry them: signed 64-bit integers, the unsigned 64-bit integers
above those, and finite doubles. A text stands for the double nearest to it if it has a fraction or
an exponent, and also if it is an integer of no 64-bit kind.
-/

namespace RowGraph

-- `wide` holds only integers above the signed range.
inductive Number where
  | int (n : Int64)
  | wide (n : UInt64)
  | float (f : Float)

namespace Number

-- Integers of different width never meet, and an integer differs from a double of equal value.
def beq : Number → Number → Bool
  | .int a, .int b => a == b
  | .wide a, .wide b => a == b
  | .float a, .float b => a == b
  | _, _ => false

instance : BEq Number := ⟨beq⟩

def ofInt? (n : Int) : Option Number :=
  if -0x8000000000000000 ≤ n && n < 0x8000000000000000 then some (.int (Int64.ofInt n))
  else if 0 ≤ n && n < 0x10000000000000000 then some (.wide (UInt64.ofNat n.toNat))
  else none

def asInt64? : Number → Option Int64
  | .int n => some n
  | .wide _ | .float _ => none

def toFloat : Number → Float
  | .int n => n.toFloat
  | .wide n => n.toFloat
  | .float f => f

def text : Number → String
  | .int n => toString n.toInt
  | .wide n => toString n.toNat
  | .float f => Decimal.Layout.json.write f

def digitsValue (ds : List Char) : Nat := ds.foldl (fun n c => n * 10 + (c.toNat - '0'.toNat)) 0

-- The parts of a decimal text.
structure Parts where
  negative : Bool
  whole : List Char
  fraction : Option (List Char)
  exponent : Option Int

namespace Parts

def isInteger (p : Parts) : Bool := p.fraction.isNone && p.exponent.isNone

def magnitude (p : Parts) : Decimal.Digits :=
  let fraction := p.fraction.getD []
  ⟨digitsValue (p.whole ++ fraction), p.exponent.getD 0 - fraction.length⟩

-- May be infinite.
def toFloat (p : Parts) : Float := p.magnitude.toFloat p.negative

-- No finite double is that large: `none`.
def readFloat? (p : Parts) : Option Number :=
  if p.toFloat.isInf then none else some (.float p.toFloat)

-- An integer zero with a minus sign is the double below zero.
def read (p : Parts) : Option Number :=
  let n : Int := digitsValue p.whole
  if p.isInteger && !(p.negative && n = 0) then
    ofInt? (if p.negative then -n else n) <|> p.readFloat?
  else p.readFloat?

end Parts

-- Splits a run of decimal digits off the front.
def takeDigits (cs : List Char) : List Char × List Char :=
  (cs.takeWhile Char.isDigit, cs.dropWhile Char.isDigit)

-- The letter, an optional sign and at least one digit.
def takeExponent : List Char → Option (Int × List Char)
  | e :: r =>
    if e = 'e' || e = 'E' then
      let (minus, r) := match r with
        | '-' :: r => (true, r)
        | '+' :: r => (false, r)
        | _ => (false, r)
      let (ds, r') := takeDigits r
      let n : Int := digitsValue ds
      if ds.isEmpty then none else some (if minus then -n else n, r')
    else none
  | [] => none

-- A point and at least one digit.
def takeFraction : List Char → Option (List Char × List Char)
  | '.' :: r =>
    let (ds, r') := takeDigits r
    if ds.isEmpty then none else some (ds, r')
  | _ => none

-- One integer part without leading zeros, then a fraction and an exponent if they are complete.
def Parts.take (cs : List Char) : Option (Parts × List Char) :=
  let (negative, cs) := match cs with
    | '-' :: r => (true, r)
    | _ => (false, cs)
  let (whole, rest) : List Char × List Char := match cs with
    | '0' :: r => (['0'], r)
    | _ => takeDigits cs
  if whole.isEmpty then none
  else
    let (fraction, rest) : Option (List Char) × List Char := match takeFraction rest with
      | some (ds, r) => (some ds, r)
      | none => (none, rest)
    let (exponent, rest) : Option Int × List Char := match takeExponent rest with
      | some (e, r) => (some e, r)
      | none => (none, rest)
    some (⟨negative, whole, fraction, exponent⟩, rest)

-- Reads a double the way a person would write it: optional sign, digits around an optional point,
-- an optional exponent, or the words for not-a-number and infinity. The result is the nearest
-- double.
def readFloat? (s : String) : Option Float :=
  let (negative, cs) := match s.toList with
    | '-' :: r => (true, r)
    | '+' :: r => (false, r)
    | cs => (false, cs)
  let signed (f : Float) : Float := if negative then -f else f
  let word := (String.ofList cs).toLower
  if word = "nan" then some (0.0 / 0.0)
  else if word = "inf" || word = "infinity" then some (signed (1.0 / 0.0))
  else
    let (whole, rest) := takeDigits cs
    let (fraction, rest) := match rest with
      | '.' :: r => takeDigits r
      | _ => ([], rest)
    let number (exponent : Option Int) : Float :=
      Parts.toFloat { negative, whole, fraction := some fraction, exponent }
    if whole.isEmpty && fraction.isEmpty then none
    else if rest.isEmpty then some (number none)
    else match takeExponent rest with
      | some (e, []) => some (number (some e))
      | _ => none

end Number

end RowGraph
