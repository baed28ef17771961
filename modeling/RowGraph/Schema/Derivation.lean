import RowGraph.Schema.Document
import RowGraph.Schema.Resolver
/-!
The resolvers that a document gives rise to: one for every field of the root query type, of every
table, of every entry type and of the root mutation type, in this order. The first field that
cannot be resolved decides that the document is turned down.
-/

namespace RowGraph.Document

-- A resolver with the type and the field that it is for.
abbrev Derived := String × String × Resolver

-- The first argument that is typed as an id, or as a list of ids.
def idArgument? (f : FieldDef) (list : Bool) : Option String :=
  (f.arguments.find? fun a => a.type.name = "ID" && a.type.isList = list).map (·.name)

def rootField (d : Document) (f : FieldDef) : Except SchemaProblem Derived := do
  let shape ← FieldShape.classify d.lookup f.type
  let list ← match shape.kind with
    | .scalar => .error (.rootNotObject f.name)
    | .reference _ => .ok false
    | .referenceList _ _ => .ok true
  match idArgument? f list with
  | some argument => .ok (d.query, f.name, .root argument shape)
  | none => .error (.rootWithoutId f.name list)

def tableField (d : Document) (table : String) (f : FieldDef) : Except SchemaProblem Derived := do
  let shape ← FieldShape.classify d.lookup f.type
  match shape.kind with
  | .scalar => .ok (table, f.name, .column f.name)
  | .reference _ | .referenceList _ _ => .ok (table, f.name, .reference f.name shape)

def entryField (entry : String) (f : FieldDef) : Derived :=
  (entry, f.name, if f.name = valueField then .value else .column f.name)

def hasField (fields : List InputDef) (name : String) : Bool := fields.any fun f => f.name = name

-- The operation directives of a field, with the kind of write that each stands for.
def operationsOf (f : InputDef) : List (WriteKind × DirectiveUse) :=
  f.directives.filterMap fun u => (WriteKind.ofName? u.name).map fun op => (op, u)

-- Exactly one operation directive, a table, and items that say which row they mean.
def binding (d : Document) (input : String) (f : InputDef) : Except SchemaProblem Binding := do
  let (op, use) ← match operationsOf f with
    | [] => .error (.noDirective input f.name)
    | [one] => .ok one
    | _ :: _ :: _ => .error (.severalDirectives input f.name)
  let table ← match use.argument? tableArgument with
    | some (.string table) => .ok table
    | _ => .error (.directiveWithoutTable op input f.name)
  if !d.isTable table then .error (.unknownTable op input f.name table)
  else
    let item := f.type.name
    let fields ← match d.inputFields? item with
      | some fields => .ok fields
      | none => .error (.itemsNotInput input f.name item)
    if !hasField fields idColumn then .error (.itemLacks item op idColumn)
    else if op.needsStamp && !hasField fields stampField then .error (.itemLacks item op stampField)
    else .ok ⟨f.name, op, table⟩

-- A text, or an object with a field for the stamp; never an entry.
def resultOf (d : Document) (f : FieldDef) : Except SchemaProblem MutationResult := do
  let shape ← FieldShape.classify d.lookup f.type
  match shape.kind with
  | .scalar =>
    if !f.type.isList && (f.type.name = "String" || f.type.name = "ID") then .ok .stamp
    else .error (.mutationResult f.name)
  | .reference result =>
    if shape.entry then .error (.mutationResult f.name)
    else if ((d.objectFields? result).getD []).any fun r => r.name = stampField then .ok .object
    else .error (.resultWithoutStamp result f.name)
  | .referenceList _ _ => .error (.mutationResult f.name)

def mutationField (d : Document) (root : String) (f : FieldDef) :
    Except SchemaProblem Derived := do
  let argument ← match f.arguments with
    | [a] => .ok a
    | _ => .error (.argumentCount f.name)
  let input := argument.type.name
  let fields ← match d.inputFields? input with
    | some fields => if argument.type.isList then .error (.argumentNotInput f.name) else .ok fields
    | none => .error (.argumentNotInput f.name)
  let bindings ← fields.mapM (d.binding input)
  if f.type.nonNull then .error (.mutationNonNull f.name)
  else
    let result ← d.resultOf f
    .ok (root, f.name, .mutation ⟨argument.name, bindings, result⟩)

def rootFields (d : Document) : Except SchemaProblem (List Derived) :=
  ((d.objectFields? d.query).getD []).mapM d.rootField

def tableFields (d : Document) : Except SchemaProblem (List Derived) :=
  (d.tables.flatMap fun (table, fields) => fields.map fun f => (table, f)).mapM fun (table, f) =>
    d.tableField table f

def entryFields (d : Document) : List Derived :=
  d.entryObjects.flatMap fun (entry, fields) => fields.map (entryField entry)

def mutationFields (d : Document) : Except SchemaProblem (List Derived) :=
  match d.mutation with
  | none => .ok []
  | some root => ((d.objectFields? root).getD []).mapM (d.mutationField root)

def derive (d : Document) : Except SchemaProblem (List Derived) := do
  let roots ← d.rootFields
  let tables ← d.tableFields
  let mutations ← d.mutationFields
  .ok (roots ++ tables ++ d.entryFields ++ mutations)

end RowGraph.Document
