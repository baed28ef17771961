import RowGraph.Json
import RowGraph.Members
/-!
GraphQL values without variables: arguments, variable values and response data. The members of an
object keep the order in which they were given.
-/

namespace RowGraph

inductive Datum where
  | null
  | bool (b : Bool)
  | number (n : Number)
  | string (s : String)
  | enum (name : String)
  | binary (bytes : List UInt8)
  | list (items : List Datum)
  | object (members : List (String × Datum))

namespace Datum

instance : Inhabited Datum := ⟨null⟩

def int (n : Int64) : Datum := .number (.int n)

def isNull : Datum → Bool
  | .null => true
  | _ => false

def asObject? : Datum → Option (List (String × Datum))
  | .object members => some members
  | _ => none

mutual

-- Objects are equal when each member of one is a member of the other, in any order.
def beq : Datum → Datum → Bool
  | .null, .null => true
  | .bool a, .bool b => a == b
  | .number a, .number b => a == b
  | .string a, .string b => a == b
  | .enum a, .enum b => a == b
  | .binary a, .binary b => a == b
  | .list as, .list bs => beqItems as bs
  | .object as, .object bs => as.length == bs.length && beqMembers as bs
  | _, _ => false

def beqItems : List Datum → List Datum → Bool
  | [], [] => true
  | a :: as, b :: bs => beq a b && beqItems as bs
  | _, _ => false

def beqMembers : List (String × Datum) → List (String × Datum) → Bool
  | [], _ => true
  | (n, a) :: as, bs =>
    (match Members.get? n bs with
      | some b => beq a b
      | none => false) && beqMembers as bs

end

instance : BEq Datum := ⟨beq⟩

mutual

-- The literal that denotes the value.
def display : Datum → String
  | .null => "null"
  | .bool b => if b then "true" else "false"
  | .number n => n.text
  | .string s => Text.graphql s
  | .enum name => name
  | .binary bytes => "[" ++ ", ".intercalate (bytes.map fun b => toString b.toNat) ++ "]"
  | .list items => "[" ++ displayItems items ++ "]"
  | .object members => "\x7b" ++ displayMembers members ++ "\x7d"

def displayItems : List Datum → String
  | [] => ""
  | [item] => display item
  | item :: rest => display item ++ ", " ++ displayItems rest

def displayMembers : List (String × Datum) → String
  | [] => ""
  | [(name, v)] => name ++ ": " ++ display v
  | (name, v) :: rest => name ++ ": " ++ display v ++ ", " ++ displayMembers rest

end

mutual

-- Names of enum values become texts, bytes become numbers.
def toJson : Datum → Json
  | .null => .null
  | .bool b => .bool b
  | .number n => .number n
  | .string s => .string s
  | .enum name => .string name
  | .binary bytes => .array (bytes.map fun b => Json.nat b.toNat)
  | .list items => .array (toJsonItems items)
  | .object members => .object (toJsonMembers members)

def toJsonItems : List Datum → List Json
  | [] => []
  | v :: rest => toJson v :: toJsonItems rest

def toJsonMembers : List (String × Datum) → List (String × Json)
  | [] => []
  | (name, v) :: rest => (name, toJson v) :: toJsonMembers rest

end

mutual

def ofJson : Json → Datum
  | .null => .null
  | .bool b => .bool b
  | .number n => .number n
  | .string s => .string s
  | .array items => .list (ofJsonItems items)
  | .object members => .object (ofJsonMembers members)

def ofJsonItems : List Json → List Datum
  | [] => []
  | j :: rest => ofJson j :: ofJsonItems rest

def ofJsonMembers : List (String × Json) → List (String × Datum)
  | [] => []
  | (name, j) :: rest => (name, ofJson j) :: ofJsonMembers rest

end

end Datum

end RowGraph
