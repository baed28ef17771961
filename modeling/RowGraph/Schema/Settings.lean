import RowGraph.Number
/-!
Limits on requests, and whether requests may ask about the schema. A setting that cannot be read
falls back to its default.
-/

namespace RowGraph

structure Settings where
  depthLimit : Nat := 64
  complexityLimit : Nat := 10000
  introspection : Bool := true
deriving DecidableEq, Repr

namespace Settings

-- An optional plus sign and decimal digits, for a number of at most 64 bits.
def readCount? (s : String) : Option Nat :=
  let digits := match s.toList with
    | '+' :: r => r
    | cs => cs
  if digits.isEmpty || !digits.all Char.isDigit then none
  else
    let n := Number.digitsValue digits
    if n < 0x10000000000000000 then some n else none

def readFlag? : String → Option Bool
  | "true" => some true
  | "false" => some false
  | _ => none

def defaults : Settings := {}

-- Each setting is a text, or is not set at all.
def ofTexts (depth complexity introspection : Option String) : Settings where
  depthLimit := (depth.bind readCount?).getD defaults.depthLimit
  complexityLimit := (complexity.bind readCount?).getD defaults.complexityLimit
  introspection := (introspection.bind readFlag?).getD defaults.introspection

end Settings

end RowGraph
