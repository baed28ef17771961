import RowGraph.Ordered
/-!
Maps keyed by a type name and a field name: one ordered map of fields per type, so that the entries
come out by type and then by field.
-/

namespace RowGraph

structure FieldMap (α : Type) where
  types : OrderedMap String (OrderedMap String α)

namespace FieldMap

def empty : FieldMap α := ⟨.empty⟩

instance : Inhabited (FieldMap α) := ⟨empty⟩

def fields (m : FieldMap α) (type : String) : OrderedMap String α := (m.types.get? type).getD .empty

def get? (m : FieldMap α) (type field : String) : Option α :=
  (m.types.get? type).bind fun fields => fields.get? field

def contains (m : FieldMap α) (type field : String) : Bool := (m.get? type field).isSome

def insert (m : FieldMap α) (type field : String) (a : α) : FieldMap α :=
  ⟨m.types.insert type ((m.fields type).insert field a)⟩

-- By type, then by field.
def toList (m : FieldMap α) : List (String × String × α) :=
  m.types.toList.flatMap fun (type, fields) =>
    fields.toList.map fun (field, a) => (type, field, a)

def size (m : FieldMap α) : Nat :=
  m.types.toList.foldl (fun count (_, fields) => count + fields.toList.length) 0

def isEmpty (m : FieldMap α) : Bool := m.size = 0

-- Later entries replace earlier ones for the same field.
def ofList (entries : List (String × String × α)) : FieldMap α :=
  entries.foldl (fun m e => m.insert e.1 e.2.1 e.2.2) .empty

end FieldMap

end RowGraph
