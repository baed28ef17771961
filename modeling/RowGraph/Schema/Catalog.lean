import RowGraph.Schema.Document
import RowGraph.Schema.Builtin
/-!
The types that a request may name: the built-in scalars, the types that describe a schema to its
clients, and the declared types. The description of the schema shows a declared type only if it can
be reached from the roots or has a reserved name. Of several declarations of one field the last
counts, in the place of the first.
-/

namespace RowGraph

-- Replaces what has the same name, or appends.
def mergeNamed (nameOf : α → String) (done : List α) (a : α) : List α :=
  if done.any fun b => nameOf b = nameOf a then
    done.map fun b => if nameOf b = nameOf a then a else b
  else done ++ [a]

def distinctNamed (nameOf : α → String) (as : List α) : List α :=
  as.foldl (mergeNamed nameOf) []

namespace FieldDef

def distinctArguments (f : FieldDef) : FieldDef :=
  { f with arguments := distinctNamed InputDef.name f.arguments }

end FieldDef

namespace TypeDef

def distinct (t : TypeDef) : TypeDef :=
  { t with body :=
      match t.body with
      | .object fields =>
        .object ((distinctNamed FieldDef.name fields).map FieldDef.distinctArguments)
      | .input fields => .input (distinctNamed InputDef.name fields)
      | .enum values => .enum (distinctNamed id values)
      | b => b }

def isLeaf (t : TypeDef) : Bool :=
  match t.body with
  | .scalar | .enum _ => true
  | _ => false

def isInput (t : TypeDef) : Bool :=
  match t.body with
  | .scalar | .enum _ | .input _ => true
  | _ => false

def isOutput (t : TypeDef) : Bool :=
  match t.body with
  | .input _ => false
  | _ => true

def isComposite (t : TypeDef) : Bool :=
  match t.body with
  | .object _ | .interface _ | .union _ => true
  | _ => false

def kindName (t : TypeDef) : String :=
  match t.body with
  | .scalar => "SCALAR"
  | .object _ => "OBJECT"
  | .interface _ => "INTERFACE"
  | .union _ => "UNION"
  | .enum _ => "ENUM"
  | .input _ => "INPUT_OBJECT"

def field? (t : TypeDef) (name : String) : Option FieldDef :=
  (t.objectFields?.getD []).find? fun f => f.name = name

end TypeDef

structure Catalog where
  query : String
  mutation : Option String
  -- In document order.
  declared : List TypeDef
  builtins : List TypeDef
  -- The names of the types that can be reached, in no particular order.
  reached : List String
  introspection : Bool

namespace Catalog

def scalars : List TypeDef := builtinScalars.map fun name =>
  { name, body := .scalar, description := Description.scalar? name }

-- Scalars that only take certain values.
def scalarTakes (name : String) (d : Datum) : Bool :=
  match name, d with
  | "Int", .number (.int _) => true
  | "Int", _ => false
  | "Float", .number _ => true
  | "Float", _ => false
  | "String", .string _ => true
  | "String", _ => false
  | "Boolean", .bool _ => true
  | "Boolean", _ => false
  | "ID", .string _ => true
  | "ID", .number (.int _) => true
  | "ID", _ => false
  | _, _ => true

def types (c : Catalog) : List TypeDef := c.declared ++ c.builtins

def type? (c : Catalog) (name : String) : Option TypeDef := c.types.find? fun t => t.name = name

-- The description of the schema can be entered from the query root alone.
def entrances (c : Catalog) (t : TypeDef) : List FieldDef :=
  if c.introspection && t.name = c.query then Description.entrances else []

def field? (c : Catalog) (t : TypeDef) (name : String) : Option FieldDef :=
  ((c.entrances t).find? fun f => f.name = name) <|> t.field? name

def mentions (c : Catalog) (name : String) : List String :=
  match c.type? name with
  | some t => t.mentions ++ (c.entrances t).flatMap FieldDef.mentions
  | none => []

def reachable (c : Catalog) : List String :=
  closure c.mentions (c.types.map fun t => t.name) (c.query :: c.mutation.toList)

def ofDocument (d : Document) (introspection : Bool) : Catalog :=
  let declared := d.types.map TypeDef.distinct
  let describing :=
    if introspection then Description.typesBeside (declared.map fun t => t.name) else []
  let c : Catalog :=
    { query := d.query, mutation := d.mutation, introspection, declared
      builtins := scalars ++ describing, reached := [] }
  { c with reached := c.reachable }

def isDeclared (c : Catalog) (name : String) : Bool := c.declared.any fun t => t.name = name

-- The types that the description of the schema shows.
def shown (c : Catalog) : List TypeDef :=
  c.types.filter fun t =>
    isReserved t.name || builtinScalars.contains t.name || c.reached.contains t.name

def shown? (c : Catalog) (name : String) : Option TypeDef := c.shown.find? fun t => t.name = name

def root? (c : Catalog) (kind : OperationKind) : Option String :=
  match kind with
  | .query => some c.query
  | .mutation => c.mutation
  | .subscription => none

end Catalog

end RowGraph
