import RowGraph.Members
import RowGraph.Ordered
import RowGraph.Number
import RowGraph.Text.Quoted
/-!
JSON values and their compact text. The members of an object are pairs in the order in which they
are written; the reader delivers them in key order, the last of several equal keys winning.
-/

namespace RowGraph

inductive Json where
  | null
  | bool (b : Bool)
  | number (n : Number)
  | string (s : String)
  | array (items : List Json)
  | object (members : List (String × Json))

namespace Json

instance : Inhabited Json := ⟨null⟩

def int (n : Int64) : Json := .number (.int n)

def nat (n : Nat) : Json := .int (Int64.ofNat n)

def member? (name : String) : Json → Option Json
  | .object members => Members.get? name members
  | _ => none

mutual

-- No blanks; the members of an object stand in their own order.
def render : Json → String
  | .null => "null"
  | .bool b => if b then "true" else "false"
  | .number n => n.text
  | .string s => Text.json s
  | .array items => "[" ++ renderItems items ++ "]"
  | .object members => "\x7b" ++ renderMembers members ++ "\x7d"

def renderItems : List Json → String
  | [] => ""
  | [item] => render item
  | item :: rest => render item ++ "," ++ renderItems rest

def renderMembers : List (String × Json) → String
  | [] => ""
  | [(name, value)] => Text.json name ++ ":" ++ render value
  | (name, value) :: rest => Text.json name ++ ":" ++ render value ++ "," ++ renderMembers rest

end

end Json

end RowGraph
