import RowGraph.Execution.Request
import RowGraph.Store.Memory
/-!
The overview of a schema: what one standard request learns of its roots and its own types, in
order. The request is executed like any other, so a schema that turns it down has no overview, and
what is null in the answer is left out. Built-in scalars and reserved types are left out too, lists
are sorted by name, and types of fields are shown by their text.
-/

namespace RowGraph

namespace Overview

-- Levels of a type expression that are asked for.
def levels : Nat := 6

def ask (name : String) (inside : List String) : String :=
  name ++ "\x7b " ++ " ".intercalate inside ++ " \x7d "

def typeQuestions : Nat → List String
  | 0 => []
  | 1 => ["kind", "name"]
  | n + 1 => ["kind", "name", ask "ofType" (typeQuestions n)]

def source : String :=
  let name := ["name"]
  let typed := ["name", "description", ask "type" ["...Type"]]
  ask "" [ask "__schema" [ask "queryType" name, ask "mutationType" name,
    ask "types" ["kind", "name", "description",
      ask "fields" (typed ++ [ask "args" ["...Input"]]), ask "inputFields" ["...Input"],
      ask "enumValues" name]]] ++
    ask "fragment Input on __InputValue" (typed ++ ["defaultValue"]) ++
    ask "fragment Type on __Type" (typeQuestions levels)

def request : Request := { source }

-- The value of a member; null is none.
def value? (name : String) : Datum → Option Datum
  | .object members => (Members.get? name members).filter fun d => !d.isNull
  | _ => none

def nameOf? (d : Datum) : Option String :=
  match value? "name" d with
  | some (.string name) => some name
  | _ => none

def nameOf (d : Datum) : String := (nameOf? d).getD ""

-- How a part of the answer is shown.
abbrev View := Datum → Datum

def record (views : List (String × View)) : View := fun d =>
  .object (views.filterMap fun (name, view) => (value? name d).map fun v => (name, view v))

def sorted (view : View) : View
  | .list items =>
    .list ((items.map view).mergeSort fun a b => (compare (nameOf a) (nameOf b)).isLE)
  | d => d

-- What lies below the levels that were asked for is unknown.
def typeText : Nat → Datum → String
  | 0, _ => "?"
  | n + 1, d =>
    let inside := typeText n ((value? "ofType" d).getD .null)
    match value? "kind" d with
    | some (.enum "NON_NULL") => inside ++ "!"
    | some (.enum "LIST") => "[" ++ inside ++ "]"
    | _ => (nameOf? d).getD "?"

def typed : List (String × View) :=
  [("name", id), ("description", id), ("type", fun d => .string (typeText levels d))]

def input : View := record (typed ++ [("defaultValue", id)])

def field : View := record (typed ++ [("args", sorted input)])

def root : View := record [("name", id)]

def type : View :=
  record [("kind", id), ("name", id), ("description", id), ("fields", sorted field),
    ("inputFields", sorted input), ("enumValues", sorted root)]

-- Declared types are those that have no built-in name.
def own : View
  | .list types =>
    .list (types.filter fun t => !isReserved (nameOf t) && !builtinScalars.contains (nameOf t))
  | d => d

def schema : View :=
  record [("queryType", root), ("mutationType", root), ("types", sorted type ∘ own)]

end Overview

-- Nothing that the request asks for is in the store.
def Schema.overview? (s : Schema) : Option Datum := do
  let response ← (s.execute Memory.backend Overview.request .empty).response
  (Overview.value? "__schema" response.data).map Overview.schema

end RowGraph
