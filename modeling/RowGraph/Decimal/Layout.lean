import RowGraph.Decimal.Shortest
/-!
How the digits of a double are laid out as text. A `Layout` says which numbers are written without
an exponent, whether a whole number keeps a point, and which of two equally near digits is taken;
the digits are always the fewest that read back.
-/

namespace RowGraph.Decimal

structure Layout where
  -- Positions of the decimal point, counted from before the first digit, that need no exponent.
  positional : Int → Bool
  -- A whole number written without exponent ends in a point and a zero.
  wholePoint : Bool
  tie : Tie

-- Never an exponent, and a whole number looks like an integer.
def Layout.plain : Layout := ⟨fun _ => true, false, .up⟩

-- A JSON number: no exponent from 0.00001 up to sixteen digits before the point.
def Layout.json : Layout := ⟨fun point => -5 < point && point ≤ 16, true, .even⟩

def zeros (n : Nat) : String := String.ofList (List.replicate n '0')

def Layout.place (l : Layout) (digits : String) (point : Int) : String :=
  let cs := digits.toList
  let count := cs.length
  if l.positional point then
    if point ≤ 0 then "0." ++ zeros (-point).toNat ++ digits
    else if count ≤ point.toNat then
      digits ++ zeros (point.toNat - count) ++ (if l.wholePoint then ".0" else "")
    else String.ofList (cs.take point.toNat) ++ "." ++ String.ofList (cs.drop point.toNat)
  else
    let shift := point - 1
    let fraction := cs.drop 1
    String.ofList (cs.take 1) ++ (if fraction.isEmpty then "" else "." ++ String.ofList fraction) ++
      "e" ++ (if shift < 0 then "-" else "+") ++ toString shift.natAbs

-- The sign is written for negative zero too.
def Layout.write (l : Layout) (f : Float) : String :=
  if f.isNaN then "NaN"
  else
    let sign := if f.toBits.toNat / 0x8000000000000000 = 1 then "-" else ""
    if f.isInf then sign ++ "inf"
    else
      let b := Binary.ofBits f.toBits
      if b.significand = 0 then sign ++ "0" ++ (if l.wholePoint then ".0" else "")
      else
        let d := b.shortest l.tie
        let digits := toString d.digits
        sign ++ l.place digits (digits.length + d.exponent)

end RowGraph.Decimal
