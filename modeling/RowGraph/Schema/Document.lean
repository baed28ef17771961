import RowGraph.Language.Definition
import RowGraph.Schema.Shape
/-!
A type-system document after analysis: its roots, its types in document order, and its entry types.
An entry type shows a stored row under `value`, next to its `versionstamp` and perhaps its `id`,
and has no other field; every other object type that is not a root is a table.
-/

namespace RowGraph

structure Document where
  query : String
  mutation : Option String
  types : List TypeDef
  -- Entry types with the table each of them wraps.
  entries : List (String × String)

-- The column that is always taken from the key of a row.
def idColumn : String := "id"

-- The field that carries the stamp of a row.
def stampField : String := "versionstamp"

-- The field of an entry type that holds the row itself.
def valueField : String := "value"

-- The argument of an operation directive that names the table.
def tableArgument : String := "table"

def builtinScalars : List String := ["Int", "Float", "String", "Boolean", "ID"]

namespace Document

-- Definitions that have been accepted so far.
structure Accepted where
  roots : Option (String × Option String) := none
  types : List TypeDef := []

-- One more definition. The first thing that is wrong with it decides.
def Accepted.add (a : Accepted) : Definition → Except SchemaProblem Accepted
  | .roots d =>
    if d.isExtension then .error .schemaExtension
    else if a.roots.isSome then .error .schemaTwice
    else if d.subscription.isSome then .error .subscriptions
    else match d.query with
      | some query => .ok { a with roots := some (query, d.mutation) }
      | none => .error .noQueryRoot
  | .type d =>
    if d.isExtension then .error (.typeExtension d.name)
    else if builtinScalars.contains d.name then .error (.builtinRedefined d.name)
    else if a.types.any fun t => t.name = d.name then .error (.typeTwice d.name)
    else .ok { a with types := a.types ++ [d] }
  | .directive _ => .ok a

def Accepted.addAll (a : Accepted) : List Definition → Except SchemaProblem Accepted
  | [] => .ok a
  | d :: rest => do (← a.add d).addAll rest

-- Without a schema definition the roots go by their usual names, and the mutation root is there
-- only if something of that name is.
def Accepted.rootNames (a : Accepted) : String × Option String :=
  match a.roots with
  | some roots => roots
  | none =>
    ("Query", if a.types.any fun t => t.name = "Mutation" then some "Mutation" else none)

def type? (d : Document) (name : String) : Option TypeDef := d.types.find? fun t => t.name = name

def objectFields? (d : Document) (name : String) : Option (List FieldDef) :=
  (d.type? name).bind TypeDef.objectFields?

def inputFields? (d : Document) (name : String) : Option (List InputDef) :=
  (d.type? name).bind TypeDef.inputFields?

def isRoot (d : Document) (name : String) : Bool := d.query = name || d.mutation = some name

-- Whether a field of the wrapper form may hold the wrapped row.
def holdsRow (d : Document) (f : FieldDef) : Bool :=
  f.name = valueField && (d.objectFields? f.type.name).isSome && !d.isRoot f.type.name

def holdsStamp (f : FieldDef) : Bool :=
  f.name = stampField && (f.type.name = "String" || f.type.name = "ID")

def holdsId (f : FieldDef) : Bool := f.name = idColumn && f.type.name = "ID"

def isPlain (f : FieldDef) : Bool := !f.type.isList && f.arguments.isEmpty

-- The type under `value` of an object type that has the form of a wrapper. Of several such fields
-- the last counts.
def wrapped? (d : Document) (fields : List FieldDef) : Option String :=
  if fields.all fun f => isPlain f && (d.holdsRow f || holdsStamp f || holdsId f) then
    if fields.any holdsStamp then
      (fields.filter d.holdsRow).getLast?.map fun f => f.type.name
    else none
  else none

-- Types of the wrapper form, with the type each of them holds.
def wrappers (d : Document) : List (String × String) :=
  d.types.filterMap fun t =>
    match t.body with
    | .object fields =>
      if d.isRoot t.name then none else (d.wrapped? fields).map fun held => (t.name, held)
    | _ => none

-- A type of the wrapper form whose value has that form too is an ordinary table.
def entryTypes (d : Document) : List (String × String) :=
  d.wrappers.filter fun e => !d.wrappers.any fun w => w.1 = e.2

def entryTable? (d : Document) (name : String) : Option String :=
  Members.get? name d.entries

def isEntry (d : Document) (name : String) : Bool := (d.entryTable? name).isSome

-- Object types with their fields, in document order.
def objects (d : Document) : List (String × List FieldDef) :=
  d.types.filterMap fun t => t.objectFields?.map fun fields => (t.name, fields)

def tables (d : Document) : List (String × List FieldDef) :=
  d.objects.filter fun o => !d.isRoot o.1 && !d.isEntry o.1

def entryObjects (d : Document) : List (String × List FieldDef) :=
  d.objects.filter fun o => d.isEntry o.1

def kindOf (d : Document) (name : String) : Option NamedKind :=
  if builtinScalars.contains name then some .leaf
  else match d.type? name with
    | none => none
    | some t =>
      match t.body with
      | .object _ =>
        if d.isRoot name then none else if d.isEntry name then some .entry else some .table
      | .scalar | .enum _ => some .leaf
      | .input _ => some .input
      | .interface _ | .union _ => some .abstract

def lookup (d : Document) : TypeLookup := ⟨d.kindOf, d.entryTable?⟩

def isTable (d : Document) (name : String) : Bool := d.kindOf name = some .table

def ofDefinitions (defs : List Definition) : Except SchemaProblem Document := do
  let a ← ({} : Accepted).addAll defs
  let (query, mutation) := a.rootNames
  let d : Document := { query, mutation, types := a.types, entries := [] }
  if (d.objectFields? query).isNone then .error (.queryNotObject query)
  else match mutation with
    | some m =>
      if (d.objectFields? m).isNone then .error (.mutationNotObject m)
      else .ok { d with entries := d.entryTypes }
    | none => .ok { d with entries := d.entryTypes }

def read (source : String) : Except SchemaProblem Document :=
  match Definition.readAll? source with
  | some defs => ofDefinitions defs
  | none => .error .malformed

end Document

end RowGraph
