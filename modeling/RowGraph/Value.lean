import RowGraph.Ordered
import RowGraph.Number
import RowGraph.Json
/-!
Raw column values and rows. A row is an association list in key order; `Value.none` is an absent
column, which is not the same as a stored null.
-/

namespace RowGraph

inductive Value where
  | none
  | null
  | bool (b : Bool)
  | int (n : Int64)
  | float (f : Float)
  | string (s : String)
  | array (items : List Value)
  | object (columns : List (String × Value))

-- Column names with their values, in key order.
abbrev Row := List (String × Value)

def Row.column? (row : Row) (name : String) : Option Value := Assoc.lookup name row

def Row.set (row : Row) (name : String) (v : Value) : Row := Assoc.insert name v row

-- Later columns replace earlier ones of the same name.
def Row.ofColumns (columns : List (String × Value)) : Row := Assoc.ofList columns

namespace Value

instance : Inhabited Value := ⟨Value.none⟩

def isNullish : Value → Bool
  | .none | .null => true
  | _ => false

def kindName : Value → String
  | .none => "none"
  | .null => "null"
  | .bool _ => "bool"
  | .int _ => "int"
  | .float _ => "float"
  | .string _ => "string"
  | .array _ => "array"
  | .object _ => "object"

def isFinite (f : Float) : Bool := !f.isNaN && !f.isInf

mutual

-- Absent values and doubles that JSON has no number for become null.
def toJson : Value → Json
  | .none | .null => .null
  | .bool b => .bool b
  | .int n => .number (.int n)
  | .float f => if isFinite f then .number (.float f) else .null
  | .string s => .string s
  | .array items => .array (toJsonItems items)
  | .object columns => .object (toJsonColumns columns)

def toJsonItems : List Value → List Json
  | [] => []
  | v :: rest => toJson v :: toJsonItems rest

def toJsonColumns : List (String × Value) → List (String × Json)
  | [] => []
  | (name, v) :: rest => (name, toJson v) :: toJsonColumns rest

end

mutual

-- An integer beyond the signed range becomes a double.
def ofJson : Json → Value
  | .null => .null
  | .bool b => .bool b
  | .number (.int n) => .int n
  | .number n => .float n.toFloat
  | .string s => .string s
  | .array items => .array (ofJsonItems items)
  | .object members => .object (Row.ofColumns (ofJsonMembers members))

def ofJsonItems : List Json → List Value
  | [] => []
  | j :: rest => ofJson j :: ofJsonItems rest

def ofJsonMembers : List (String × Json) → List (String × Value)
  | [] => []
  | (name, j) :: rest => (name, ofJson j) :: ofJsonMembers rest

end

-- Texts stand between single quotes without any escape; collections are shown as JSON.
def display : Value → String
  | .none => "NONE"
  | .null => "NULL"
  | .bool b => if b then "true" else "false"
  | .int n => toString n.toInt
  | .float f => Decimal.Layout.plain.write f
  | .string s => "'" ++ s ++ "'"
  | v => v.toJson.render

-- An absent value stands for a missing one of any kind.
def ofOption : Option Value → Value
  | some v => v
  | .none => .none

end Value

end RowGraph
