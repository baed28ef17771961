import RowGraph.Decimal.Shortest
/-!
The double nearest to a decimal number, a tie going to the even significand. The number is an exact
fraction; it is divided by the power of two that leaves 53 bits of it, or as many as the smallest
exponent allows, and rounded once.
-/

namespace RowGraph.Decimal

-- The nearest integer to a quotient, the even one of two.
def roundEven (num den : Nat) : Nat :=
  let under := num / den
  let excess := 2 * (num % den)
  if excess < den || (excess = den && Tie.even.staysAt under) then under else under + 1

-- The bits of infinity; those of every finite double are less.
def infiniteBits : Nat := 0x7ff0000000000000

-- The integer part of `num / (den * 2 ^ q)` has at least 53 bits or `q` is smallest; it has at
-- most 54.
def startExponent (num den : Nat) : Int :=
  max (-1074) ((num.log2 : Int) - den.log2 - 53)

-- `num / den` without the power of two.
def scaled (num den : Nat) (q : Int) : Nat × Nat :=
  match q with
  | .ofNat q => (num, den <<< q)
  | .negSucc q => (num <<< (q + 1), den)

-- The bits of the double nearest to a positive fraction. A significand that rounds up to the next
-- power of two carries into the exponent, as it should.
def fractionBits (num den : Nat) : Nat :=
  let q := startExponent num den
  let (n, d) := scaled num den q
  let q := if 0x20000000000000 ≤ n / d then q + 1 else q
  let (n, d) := scaled num den q
  min infiniteBits ((q + 1074).toNat * 0x10000000000000 + roundEven n d)

-- Beyond these magnitudes every number is infinite or zero as a double.
def Digits.bits (d : Digits) : Nat :=
  let point : Int := decimalLength d.digits + d.exponent
  if d.digits = 0 || point < -330 then 0
  else if 310 < point then infiniteBits
  else match d.exponent with
    | .ofNat e => fractionBits (d.digits * Nat.pow 10 e) 1
    | .negSucc e => fractionBits d.digits (Nat.pow 10 (e + 1))

-- The sign counts for zero too.
def Digits.toFloat (d : Digits) (negative : Bool) : Float :=
  Float.ofBits (UInt64.ofNat (d.bits + if negative then 0x8000000000000000 else 0))

end RowGraph.Decimal
