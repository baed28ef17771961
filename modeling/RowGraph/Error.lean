import RowGraph.Store.Error
import RowGraph.Store.Key
import RowGraph.Datum
/-!
The errors that a caller can meet, each with a code for programs and a text for people. A store
error is an infrastructure problem: a client sees only that there was one, never its text.
-/

namespace RowGraph

inductive GraphError where
  | store (e : StoreError)
  | schema (message : String)
  | resolver (message : String)
  | internal (message : String)
  | missingReference (column : String)
  | danglingReference (table : String) (id : RowId)
  | invalidReference (column : String) (found : String)
deriving DecidableEq, Repr

namespace GraphError

def code : GraphError → String
  | .store _ => "DbError"
  | .schema _ => "SchemaError"
  | .resolver _ => "ResolverError"
  | .internal _ => "InternalError"
  | .missingReference _ => "MissingRequiredReference"
  | .danglingReference _ _ => "DanglingReference"
  | .invalidReference _ _ => "InvalidReference"

def message : GraphError → String
  | .store e => "Database error: " ++ e.message
  | .schema m => "Error generating schema: " ++ m
  | .resolver m => "Error resolving request: " ++ m
  | .internal m => "Internal Error: " ++ m
  | .missingReference column => s!"Expected column '{column}' to contain id"
  | .danglingReference table id =>
    s!"Expected referenced table '{table}' to have row with id '{id.text}'"
  | .invalidReference column found => s!"Expected column '{column}' to contain id, found {found}"

def clientMessage : GraphError → String
  | .store _ => "Internal Error"
  | e => e.message

theorem clientMessage_store (e f : StoreError) :
    (GraphError.store e).clientMessage = (GraphError.store f).clientMessage := rfl

end GraphError

-- Requests that a resolver turns down.
inductive ResolveProblem where
  | notFinite (f : Float)
  | binaryInput
  | notAnId (argument : String) (found : Datum)
  | notAListOfIds (argument : String)
  | notAnObject (argument : String)
  | itemNotAnObject (field : String)
  | itemWithoutId (field : String)
  | itemWithoutVersionstamp (field : String)
  | invalidVersionstamp (found : Datum) (reason : String)

namespace ResolveProblem

def message : ResolveProblem → String
  | .notFinite f => "cannot represent " ++ Decimal.Layout.plain.write f ++ " as a GraphQL number"
  | .binaryInput => "binary input values are not supported"
  | .notAnId argument found => "argument `" ++ argument ++ "` must be an id, found " ++ found.display
  | .notAListOfIds argument => "argument `" ++ argument ++ "` must be a list of ids"
  | .notAnObject argument => "argument `" ++ argument ++ "` must be an object"
  | .itemNotAnObject field => "items of `" ++ field ++ "` must be objects"
  | .itemWithoutId field => "items of `" ++ field ++ "` must carry an id"
  | .itemWithoutVersionstamp field => "items of `" ++ field ++ "` must carry a versionstamp"
  | .invalidVersionstamp found reason => "invalid versionstamp " ++ found.display ++ ": " ++ reason

def error (p : ResolveProblem) : GraphError := .resolver p.message

end ResolveProblem

end RowGraph
