import RowGraph.Error
/-!
Why a type-system document is turned down, one constructor per cause, with the text for each.
-/

namespace RowGraph

-- What one field of a mutation input does to its table.
inductive WriteKind where
  | create
  | update
  | delete
deriving DecidableEq, Repr

namespace WriteKind

def ofName? : String → Option WriteKind
  | "create" => some .create
  | "update" => some .update
  | "delete" => some .delete
  | _ => none

def name : WriteKind → String
  | .create => "create"
  | .update => "update"
  | .delete => "delete"

def display (k : WriteKind) : String := "@" ++ k.name

def shown : WriteKind → String
  | .create => "Create"
  | .update => "Update"
  | .delete => "Delete"

-- A created row has no stamp yet.
def needsStamp : WriteKind → Bool
  | .create => false
  | .update | .delete => true

end WriteKind

inductive SchemaProblem where
  -- The document itself.
  | malformed
  | schemaExtension
  | schemaTwice
  | subscriptions
  | noQueryRoot
  | typeExtension (type : String)
  | builtinRedefined (type : String)
  | typeTwice (type : String)
  | queryNotObject (type : String)
  | mutationNotObject (type : String)
  -- Output types.
  | unknownType (type : String)
  | inputAsOutput (type : String)
  | abstractType (type : String)
  | nestedReferences (table : String)
  | entryWithoutTable (type : String)
  -- Root query fields.
  | rootNotObject (field : String)
  | rootWithoutId (field : String) (list : Bool)
  -- Mutation fields and the items of their inputs.
  | argumentCount (field : String)
  | argumentNotInput (field : String)
  | noDirective (input field : String)
  | severalDirectives (input field : String)
  | directiveWithoutTable (op : WriteKind) (input field : String)
  | unknownTable (op : WriteKind) (input field table : String)
  | itemsNotInput (input field found : String)
  | itemLacks (item : String) (op : WriteKind) (column : String)
  | mutationNonNull (field : String)
  | resultWithoutStamp (result field : String)
  | mutationResult (field : String)
  -- Hooks.
  | unknownHookField (type field : String)
  -- The finished schema.
  | typeNotFound (type : String)
  | objectWithoutFields (type : String)
  | reservedField (type field : String)
  | reservedArgument (type field argument : String)
  | notOutput (type field : String)
  | argumentNotAccepted (type field argument : String)
  | inputNotAccepted (type field : String)
  | selfReference (type : String)
deriving DecidableEq, Repr

namespace SchemaProblem

def quoted (s : String) : String := "`" ++ s ++ "`"

-- The problems of a finished schema are reported as a shown text within another message.
def finished (m : String) : String :=
  "there was an error generating schema: SchemaError(" ++ Text.shown m ++ ")"

def underscores : String :=
  " must not have a name which begins with the characters \"__\" (two underscores)"

def message : SchemaProblem → String
  | .malformed => "failed to parse document:"
  | .schemaExtension => "schema extensions are not supported"
  | .schemaTwice => "the schema is defined more than once"
  | .subscriptions => "subscriptions are not supported"
  | .noQueryRoot => "the schema definition has no query type"
  | .typeExtension t => "type extensions are not supported: " ++ quoted t
  | .builtinRedefined t => s!"built-in scalar {quoted t} cannot be redefined"
  | .typeTwice t => s!"type {quoted t} is defined more than once"
  | .queryNotObject t => s!"the root query type {quoted t} is not an object type"
  | .mutationNotObject t => s!"the root mutation type {quoted t} is not an object type"
  | .unknownType t => "unknown type " ++ quoted t
  | .inputAsOutput t => s!"input type {quoted t} cannot be used as an output type"
  | .abstractType t => "interface and union types are not supported: " ++ quoted t
  | .nestedReferences t => s!"nested lists of {quoted t} are not supported"
  | .entryWithoutTable t => s!"entry type {quoted t} wraps no table"
  | .rootNotObject f =>
    s!"root query field {quoted f} must return an object type or a list of object types"
  | .rootWithoutId f list =>
    s!"root query field {quoted f} has no argument of type " ++
      if list then "a list of ID" else "an ID"
  | .argumentCount f => s!"mutation field {quoted f} must take exactly one argument"
  | .argumentNotInput f =>
    s!"the argument of mutation field {quoted f} must be an input object type"
  | .noDirective i f =>
    "input field " ++ quoted (i ++ "." ++ f) ++ " has no @create, @update or @delete directive"
  | .severalDirectives i f =>
    "input field " ++ quoted (i ++ "." ++ f) ++ " has more than one operation directive"
  | .directiveWithoutTable op i f =>
    op.display ++ " on " ++ quoted (i ++ "." ++ f) ++ " needs a string `table` argument"
  | .unknownTable op i f t =>
    op.display ++ " on " ++ quoted (i ++ "." ++ f) ++ " names unknown table " ++ quoted t
  | .itemsNotInput i f found =>
    "items of " ++ quoted (i ++ "." ++ f) ++ " must be an input object type, found " ++ quoted found
  | .itemLacks item op column =>
    s!"input type {quoted item} used by {op.display} has no {quoted column} field"
  | .mutationNonNull f =>
    s!"mutation field {quoted f} must be nullable, a rejected commit resolves to null"
  | .resultWithoutStamp result f =>
    s!"result type {quoted result} of mutation field {quoted f} has no `versionstamp` field"
  | .mutationResult f =>
    s!"mutation field {quoted f} must return a string or an object with a `versionstamp` field"
  | .unknownHookField t f => "cannot attach middleware to unknown field " ++ quoted (t ++ "." ++ f)
  | .typeNotFound t => finished s!"Type \"{t}\" not found"
  | .objectWithoutFields t => finished s!"Object \"{t}\" must define one or more fields"
  | .reservedField t f => finished (s!"Field \"{t}.{f}\"" ++ underscores)
  | .reservedArgument t f a => finished (s!"Argument \"{t}.{f}.{a}\"" ++ underscores)
  | .notOutput t f => finished s!"Field \"{t}.{f}\" must return a output type"
  | .argumentNotAccepted t f a => finished s!"Argument \"{t}.{f}.{a}\" must accept a input type"
  | .inputNotAccepted t f => finished s!"Field \"{t}.{f}\" must accept a input type"
  | .selfReference t =>
    finished (s!"\"{t}\" references itself either directly or through referenced Input Objects, " ++
      "at least one of the fields in the chain of references must be either a nullable or a " ++
      "List type.")

def error (p : SchemaProblem) : GraphError := .schema p.message

end SchemaProblem

end RowGraph
