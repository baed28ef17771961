import RowGraph.Store.Key
import RowGraph.Store.Error
/-!
Atomic operations: preconditions on the stamps of rows and the writes that happen if all of them
hold. An operation is only collected here; a backend decides what it does. Reading one row and
committing one operation is all that the resolvers need from a store.
-/

namespace RowGraph

-- Without a stamp the row must not exist.
structure Check where
  key : Key
  expected : Option Versionstamp
deriving DecidableEq

inductive Mutation where
  | set (key : Key) (row : Row)
  | delete (key : Key)

def Mutation.key : Mutation → Key
  | .set key _ => key
  | .delete key => key

structure Operation where
  checks : List Check := []
  mutations : List Mutation := []

namespace Operation

def isEmpty (op : Operation) : Bool := op.checks.isEmpty && op.mutations.isEmpty

def check (op : Operation) (key : Key) (expected : Option Versionstamp) : Operation :=
  { op with checks := op.checks ++ [⟨key, expected⟩] }

def set (op : Operation) (key : Key) (row : Row) : Operation :=
  { op with mutations := op.mutations ++ [.set key row] }

def delete (op : Operation) (key : Key) : Operation :=
  { op with mutations := op.mutations ++ [.delete key] }

end Operation

-- A stored row with the stamp of the commit that last wrote it.
structure Entry where
  key : Key
  row : Row
  stamp : Versionstamp

-- Any state, and failures at any call. A commit that answers without a stamp was turned down by one
-- of its checks.
structure Backend (σ : Type) where
  get : Key → σ → Except StoreError (Option Entry) × σ
  commit : Operation → σ → Except StoreError (Option Versionstamp) × σ

end RowGraph
