import RowGraph.Versionstamp
/-!
What can go wrong below the resolvers, in the store itself.
-/

namespace RowGraph

inductive StoreError where
  | datastore (message : String)
  | transaction (message : String)
  | unsupported (path : String)
  | versionstamp (e : VersionstampError)
deriving DecidableEq, Repr

def StoreError.message : StoreError → String
  | .datastore m => "There was a problem with the underlying datastore: " ++ m
  | .transaction m => "There was a problem with a datastore transaction: " ++ m
  | .unsupported path => "Unable to load the specified datastore " ++ path
  | .versionstamp e => "Versionstamp error: " ++ e.message

end RowGraph
