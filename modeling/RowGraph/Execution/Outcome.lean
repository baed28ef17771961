import RowGraph.Schema.Blueprint
import RowGraph.Store.Operation
/-!
What a resolver hands on: a row, a GraphQL value, or a list of outcomes. The field's declared type
decides what becomes of it.
-/

namespace RowGraph

inductive Outcome where
  | row (row : Row)
  | leaf (d : Datum)
  | list (items : List Outcome)

instance : Inhabited Outcome := ⟨.leaf .null⟩

-- Nothing is known about the object that the root fields belong to.
def Outcome.root : Outcome := .leaf .null

namespace Entry

-- A row as its fields see it: the id column is the id of the key.
def shownRow (e : Entry) : Row := e.row.set idColumn e.key.id.toValue

-- A row inside its entry type.
def wrapped (e : Entry) : Row :=
  Row.ofColumns [(idColumn, e.key.id.toValue), (stampField, .string e.stamp.text),
    (valueField, .object e.shownRow)]

def outcome (e : Entry) (inEntry : Bool) : Outcome :=
  .row (if inEntry then e.wrapped else e.shownRow)

end Entry

end RowGraph
