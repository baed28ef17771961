import RowGraph.Json
/-!
Reading a JSON text. At most two steps go by before a character is consumed, so twice the length of
the text bounds the work.
-/

namespace RowGraph.Json

def skipBlank (cs : List Char) : List Char :=
  cs.dropWhile fun c => c = ' ' || c = '\t' || c = '\n' || c = '\r'

def hexValue? (c : Char) : Option Nat :=
  if '0' ≤ c ∧ c ≤ '9' then some (c.toNat - '0'.toNat)
  else if 'a' ≤ c ∧ c ≤ 'f' then some (c.toNat - 'a'.toNat + 10)
  else if 'A' ≤ c ∧ c ≤ 'F' then some (c.toNat - 'A'.toNat + 10)
  else none

def fourHex? : List Char → Option (Nat × List Char)
  | a :: b :: c :: d :: rest => do
    let a ← hexValue? a
    let b ← hexValue? b
    let c ← hexValue? c
    let d ← hexValue? d
    some (((a * 16 + b) * 16 + c) * 16 + d, rest)
  | _ => none

-- A code unit of a surrogate pair needs its partner.
def unicodeEscape? (cs : List Char) : Option (Char × List Char) := do
  let (unit, rest) ← fourHex? cs
  if 0xd800 ≤ unit ∧ unit < 0xdc00 then
    match rest with
    | '\\' :: 'u' :: rest =>
      let (low, rest) ← fourHex? rest
      if 0xdc00 ≤ low ∧ low < 0xe000 then
        some (Char.ofNat (0x10000 + (unit - 0xd800) * 0x400 + (low - 0xdc00)), rest)
      else none
    | _ => none
  else if 0xdc00 ≤ unit ∧ unit < 0xe000 then none
  else some (Char.ofNat unit, rest)

-- The text up to the closing quote; `done` holds the characters so far, last one first.
def readString (done : List Char) : Nat → List Char → Option (String × List Char)
  | 0, _ => none
  | _ + 1, [] => none
  | fuel + 1, c :: rest =>
    if c = '"' then some (String.ofList done.reverse, rest)
    else if c = '\\' then
      match rest with
      | '"' :: r => readString ('"' :: done) fuel r
      | '\\' :: r => readString ('\\' :: done) fuel r
      | '/' :: r => readString ('/' :: done) fuel r
      | 'b' :: r => readString ('\x08' :: done) fuel r
      | 'f' :: r => readString ('\x0c' :: done) fuel r
      | 'n' :: r => readString ('\n' :: done) fuel r
      | 'r' :: r => readString ('\r' :: done) fuel r
      | 't' :: r => readString ('\t' :: done) fuel r
      | 'u' :: r =>
        match unicodeEscape? r with
        | some (c, r) => readString (c :: done) fuel r
        | none => none
      | _ => none
    else if c.toNat < 0x20 then none
    else readString (c :: done) fuel rest

mutual

def readValue : Nat → List Char → Option (Json × List Char)
  | 0, _ => none
  | fuel + 1, cs =>
    match skipBlank cs with
    | 'n' :: 'u' :: 'l' :: 'l' :: rest => some (.null, rest)
    | 't' :: 'r' :: 'u' :: 'e' :: rest => some (.bool true, rest)
    | 'f' :: 'a' :: 'l' :: 's' :: 'e' :: rest => some (.bool false, rest)
    | '"' :: rest => (readString [] fuel rest).map fun (s, r) => (.string s, r)
    | '[' :: rest =>
      match skipBlank rest with
      | ']' :: r => some (.array [], r)
      | r => (readItems [] fuel r).map fun (items, r) => (.array items, r)
    | '\x7b' :: rest =>
      match skipBlank rest with
      | '\x7d' :: r => some (.object [], r)
      | r => (readMembers [] fuel r).map fun (members, r) => (.object members, r)
    | cs => do
      let (parts, rest) ← Number.Parts.take cs
      let n ← parts.read
      some (.number n, rest)

def readItems (done : List Json) : Nat → List Char → Option (List Json × List Char)
  | 0, _ => none
  | fuel + 1, cs => do
    let (item, rest) ← readValue fuel cs
    match skipBlank rest with
    | ',' :: r => readItems (item :: done) fuel r
    | ']' :: r => some ((item :: done).reverse, r)
    | _ => none

def readMembers (done : List (String × Json)) : Nat → List Char →
    Option (List (String × Json) × List Char)
  | 0, _ => none
  | fuel + 1, cs => do
    match skipBlank cs with
    | '"' :: rest =>
      let (name, rest) ← readString [] fuel rest
      match skipBlank rest with
      | ':' :: rest =>
        let (value, rest) ← readValue fuel rest
        let done := Assoc.insert name value done
        match skipBlank rest with
        | ',' :: r => readMembers done fuel r
        | '\x7d' :: r => some (done, r)
        | _ => none
      | _ => none
    | _ => none

end

-- One value with nothing but blanks around it.
def read? (text : String) : Option Json := do
  let cs := text.toList
  let (value, rest) ← readValue (2 * cs.length + 2) cs
  if (skipBlank rest).isEmpty then some value else none

end RowGraph.Json
