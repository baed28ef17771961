import RowGraph.Text.Quoted
/-!
Commit stamps: 80-bit numbers whose upper 64 bits count commits. A stamp is written as twenty
hexadecimal digits, most significant first, so that the order of the texts is the order of the
stamps. Reading goes through bytes: the text is decoded as hexadecimal first, and only then its
length is looked at.
-/

namespace RowGraph

structure Versionstamp where
  toNat : Nat
  isLt : toNat < 0x100000000000000000000
deriving DecidableEq

inductive VersionstampError where
  | invalidLength (found : Nat)
  | invalidEncoding (reason : String)
  | overflow
deriving DecidableEq, Repr

def VersionstampError.message : VersionstampError → String
  | .invalidLength found => s!"Invalid versionstamp length: expected 10 bytes, found {found}"
  | .invalidEncoding reason => "Invalid versionstamp encoding: " ++ reason
  | .overflow => "Versionstamp does not fit into a u64"

namespace Hex

inductive DecodeError where
  | oddLength
  | invalidDigit (byte : UInt8) (index : Nat)
deriving DecidableEq, Repr

-- A byte that is no digit is shown as the character of that number.
def DecodeError.message : DecodeError → String
  | .oddLength => "Odd number of digits"
  | .invalidDigit byte index =>
    "Invalid character " ++ Text.shownSingle (Char.ofNat byte.toNat) ++ s!" at position {index}"

def digit (n : Nat) : Char :=
  if n < 10 then Char.ofNat ('0'.toNat + n) else Char.ofNat ('a'.toNat + (n - 10))

def value? (byte : UInt8) : Option Nat :=
  let n := byte.toNat
  if 0x30 ≤ n ∧ n ≤ 0x39 then some (n - 0x30)
  else if 0x61 ≤ n ∧ n ≤ 0x66 then some (n - 0x61 + 10)
  else if 0x41 ≤ n ∧ n ≤ 0x46 then some (n - 0x41 + 10)
  else none

-- The lowest `count` digits, most significant first.
def digits : (count : Nat) → Nat → List Char
  | 0, _ => []
  | count + 1, n => digits count (n / 16) ++ [digit (n % 16)]

def values (index : Nat) : List UInt8 → Except DecodeError (List Nat)
  | [] => .ok []
  | byte :: rest =>
    match value? byte with
    | some n => (values (index + 1) rest).map (n :: ·)
    | none => .error (.invalidDigit byte index)

-- The digits are looked at only when their number is even.
def decode (bytes : List UInt8) : Except DecodeError (List Nat) :=
  if bytes.length % 2 = 1 then .error .oddLength else values 0 bytes

def number (digits : List Nat) : Nat := digits.foldl (fun n d => n * 16 + d) 0

end Hex

namespace Versionstamp

def zero : Versionstamp := ⟨0, by decide⟩

instance : Inhabited Versionstamp := ⟨zero⟩

-- The lowest 80 bits.
def ofNat (n : Nat) : Versionstamp := ⟨n % 0x100000000000000000000, Nat.mod_lt _ (by decide)⟩

instance : Ord Versionstamp := ⟨fun a b => compare a.toNat b.toNat⟩

def ofCounter (n : UInt64) : Versionstamp :=
  ⟨n.toNat * 0x10000, by have := n.toNat_lt; omega⟩

-- A stamp with a nonzero trailer counts nothing.
def counter (v : Versionstamp) : Except VersionstampError UInt64 :=
  if v.toNat % 0x10000 = 0 then .ok (UInt64.ofNat (v.toNat / 0x10000)) else .error .overflow

def next (v : Versionstamp) : Except VersionstampError Versionstamp := do
  let n ← v.counter
  if n.toNat + 1 < 0x10000000000000000 then .ok (ofCounter (n + 1)) else .error .overflow

def bytes (v : Versionstamp) : List UInt8 :=
  (List.range 10).map fun i => UInt8.ofNat (v.toNat >>> (8 * (9 - i)))

def ofBytes (bytes : List UInt8) : Except VersionstampError Versionstamp :=
  if bytes.length = 10 then .ok (ofNat (bytes.foldl (fun n b => n * 256 + b.toNat) 0))
  else .error (.invalidLength bytes.length)

def text (v : Versionstamp) : String := String.ofList (Hex.digits 20 v.toNat)

-- Two digits make a byte; only the right number of bytes makes a stamp.
def ofText (s : String) : Except VersionstampError Versionstamp :=
  match Hex.decode s.toUTF8.data.toList with
  | .error e => .error (.invalidEncoding e.message)
  | .ok digits =>
    if digits.length = 20 then .ok (ofNat (Hex.number digits))
    else .error (.invalidLength (digits.length / 2))

def shown (v : Versionstamp) : String := "VersionStamp(" ++ v.text ++ ")"

end Versionstamp

end RowGraph
