/-!
The fewest decimal digits that read back as a given double. A finite double is an exact integer
times a power of two; the reals that round to it form an interval around it, which contains its own
ends exactly when the integer is even. For one digit, two digits and so on, the two neighbours of
the value on that decimal grid are tested; the first grid with a hit wins, and of two hits the
nearer. A value halfway between both goes the way that a `Tie` says.
-/

namespace RowGraph.Decimal

-- The value `significand * 2 ^ exponent`.
structure Binary where
  significand : Nat
  exponent : Int
deriving DecidableEq, Repr

-- The sign bit is not looked at.
def Binary.ofBits (bits : UInt64) : Binary :=
  let fraction := bits.toNat % 0x10000000000000
  let scale : Nat := bits.toNat / 0x10000000000000 % 0x800
  if scale = 0 then ⟨fraction, -1074⟩ else ⟨fraction + 0x10000000000000, (scale : Int) - 1075⟩

-- The value `digits * 10 ^ exponent`.
structure Digits where
  digits : Nat
  exponent : Int
deriving DecidableEq, Repr

-- What becomes of a value that is as near to one integer as to the next.
inductive Tie where
  | up
  | even
deriving DecidableEq, Repr

-- Whether `under` is taken for a value halfway between it and its successor.
def Tie.staysAt (t : Tie) (under : Nat) : Bool :=
  match t with
  | .up => false
  | .even => under % 2 = 0

-- A value with the interval of reals that round to it, all three on one decimal grid.
structure Rounding where
  low : Nat
  value : Nat
  high : Nat
  closed : Bool
  exponent : Int

def Rounding.covers (r : Rounding) (n : Nat) : Bool :=
  if r.closed then r.low ≤ n && n ≤ r.high else r.low < n && n < r.high

-- Quarters of the last place: half a place on either side, except that the place below a power of
-- two is half as wide.
def Binary.rounding (b : Binary) : Rounding :=
  let below := if b.significand = 0x10000000000000 && b.exponent ≠ -1074 then 1 else 2
  let (unit, exponent) : Nat × Int :=
    match b.exponent - 2 with
    | .ofNat q => (Nat.pow 2 q, 0)
    | .negSucc q => (Nat.pow 5 (q + 1), .negSucc q)
  { low := (4 * b.significand - below) * unit
    value := 4 * b.significand * unit
    high := (4 * b.significand + 2) * unit
    closed := b.significand % 2 = 0
    exponent }

def decimalLength (n : Nat) : Nat := (Nat.toDigits 10 n).length

-- The nearer of the two grid points around the value, if it reads back; else the other one.
def Rounding.onGrid (r : Rounding) (tie : Tie) (step : Nat) : Option Nat :=
  let under := r.value / step
  let excess := 2 * (r.value % step)
  let lowHit := r.covers (under * step)
  let highHit := r.covers ((under + 1) * step)
  let nearLow := excess < step || (excess = step && tie.staysAt under)
  if lowHit && (nearLow || !highHit) then some under
  else if highHit then some (under + 1)
  else none

def Rounding.search (r : Rounding) (tie : Tie) (length : Nat) : Nat → Nat → Digits
  | 0, _ => ⟨r.value, r.exponent⟩
  | fuel + 1, count =>
    let dropped := length - count
    match r.onGrid tie (Nat.pow 10 dropped) with
    | some d => ⟨d, r.exponent + dropped⟩
    | none => r.search tie length fuel (count + 1)

-- Trailing zeros move into the exponent.
def Digits.trimmed (d : Digits) : Nat → Digits
  | 0 => d
  | fuel + 1 =>
    if d.digits ≠ 0 && d.digits % 10 = 0 then
      Digits.trimmed ⟨d.digits / 10, d.exponent + 1⟩ fuel
    else d

-- Seventeen digits tell any two doubles apart, so the search never runs dry.
def Binary.shortest (b : Binary) (tie : Tie) : Digits :=
  let r := b.rounding
  (r.search tie (decimalLength r.value) 17 1).trimmed 400

end RowGraph.Decimal
