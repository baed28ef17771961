import RowGraph.Language.Grammar
/-!
The kinds of operations, which are also the kinds of roots of a schema.
-/

namespace RowGraph

inductive OperationKind where
  | query
  | mutation
  | subscription
deriving DecidableEq, Repr

namespace OperationKind

def text : OperationKind → String
  | .query => "query"
  | .mutation => "mutation"
  | .subscription => "subscription"

def grammar : Grammar OperationKind :=
  Grammar.firstOf ([query, mutation, subscription].map fun kind => do
    Grammar.literal kind.text
    pure kind)

end OperationKind

end RowGraph
