import RowGraph.Store.Memory
/-!
A store that keeps a record of its calls and can be told to fail. A call is recorded before
anything else happens to it; reads fail by table, and commits all at once.
-/

namespace RowGraph

structure Faults where
  reads : List (String × StoreError) := []
  commits : Option StoreError := none

structure Traced where
  memory : Memory := .empty
  faults : Faults := {}
  reads : List Key := []
  commits : List Operation := []
  -- Every key that a commit has tried to write.
  touched : OrderedMap Key Unit := .empty

namespace Traced

instance : Inhabited Traced := ⟨{}⟩

def readFault? (t : Traced) (table : String) : Option StoreError :=
  Members.get? table t.faults.reads

def get (key : Key) (t : Traced) : Except StoreError (Option Entry) × Traced :=
  let t := { t with reads := t.reads ++ [key] }
  match t.readFault? key.table with
  | some e => (.error e, t)
  | none => (.ok (t.memory.get? key), t)

def touch (keys : OrderedMap Key Unit) (m : Mutation) : OrderedMap Key Unit := keys.insert m.key ()

def commit (op : Operation) (t : Traced) : Except StoreError (Option Versionstamp) × Traced :=
  let t := { t with commits := t.commits ++ [op], touched := op.mutations.foldl touch t.touched }
  match t.faults.commits with
  | some e => (.error e, t)
  | none =>
    let (stamp, memory) := t.memory.commit op
    (stamp, { t with memory })

def backend : Backend Traced := ⟨get, commit⟩

-- The same store with an empty record.
def fresh (t : Traced) : Traced := { t with reads := [], commits := [] }

def entriesOf : List Key → Traced → Except StoreError (List Entry) × Traced
  | [], t => (.ok [], t)
  | key :: rest, t =>
    match get key t with
    | (.error e, t) => (.error e, t)
    | (.ok entry, t) =>
      let (entries, t) := entriesOf rest t
      (entries.map fun es => entry.toList ++ es, t)

-- The rows at the touched keys, in key order.
def entries (t : Traced) : Except StoreError (List Entry) × Traced := entriesOf t.touched.keys t

end Traced

end RowGraph
