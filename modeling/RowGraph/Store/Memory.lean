import RowGraph.Store.Operation
/-!
The in-memory store: rows in key order and the stamp of the latest commit. A commit looks at every
check against the rows before it, then takes the next stamp, then applies its writes in order;
whatever stops it leaves the store as it was.
-/

namespace RowGraph

structure Memory where
  rows : OrderedMap Key (Row × Versionstamp)
  version : Versionstamp

namespace Memory

def empty : Memory := ⟨.empty, .zero⟩

instance : Inhabited Memory := ⟨empty⟩

def get? (m : Memory) (key : Key) : Option Entry :=
  (m.rows.get? key).map fun (row, stamp) => ⟨key, row, stamp⟩

def stamp? (m : Memory) (key : Key) : Option Versionstamp := (m.rows.get? key).map (·.2)

def holds (m : Memory) (c : Check) : Bool := m.stamp? c.key = c.expected

def apply (stamp : Versionstamp) (rows : OrderedMap Key (Row × Versionstamp)) :
    Mutation → OrderedMap Key (Row × Versionstamp)
  | .set key row => rows.insert key (row, stamp)
  | .delete key => rows.erase key

def commit (m : Memory) (op : Operation) : Except StoreError (Option Versionstamp) × Memory :=
  if op.checks.all m.holds then
    match m.version.next with
    | .ok stamp => (.ok (some stamp), ⟨op.mutations.foldl (apply stamp) m.rows, stamp⟩)
    | .error e => (.error (.versionstamp e), m)
  else (.ok none, m)

def backend : Backend Memory where
  get key m := (.ok (m.get? key), m)
  commit op m := m.commit op

end Memory

-- The kinds of store that can be opened by name.
inductive StoreKind where
  | memory
deriving DecidableEq, Repr

namespace StoreKind

def open? (path : String) : Except StoreError StoreKind :=
  if path = "memory" || path = "mem://" then .ok .memory else .error (.unsupported path)

def name : StoreKind → String
  | .memory => "memory"

def shown (k : StoreKind) : String := "Datastore \x7b kind: " ++ Text.shown k.name ++ " \x7d"

end StoreKind

end RowGraph
