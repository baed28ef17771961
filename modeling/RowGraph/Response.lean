import RowGraph.Error
import RowGraph.Language.Cursor
/-!
Responses: data, and errors with the position of the response that they belong to.
-/

namespace RowGraph

inductive Segment where
  | field (key : String)
  | index (n : Nat)
deriving DecidableEq, Repr

-- From the root of the response inwards.
abbrev Path := List Segment

structure ResponseError where
  message : String
  path : Path := []
  locations : List Location := []
  code : Option String := none
deriving DecidableEq, Repr

-- The client-facing form of an error that was raised for a field.
def GraphError.raisedAt (e : GraphError) (loc : Location) : ResponseError :=
  { message := e.clientMessage, locations := [loc], code := some e.code }

structure Response where
  data : Datum
  errors : List ResponseError

-- A request that is turned down has no data.
def Response.refused (errors : List ResponseError) : Response := ⟨.null, errors⟩

end RowGraph
