import RowGraph.Schema.Catalog
import RowGraph.Schema.Derivation
import RowGraph.Schema.Settings
/-!
From a document to a schema that can execute requests. A blueprint has a resolver for every field
that needs one and takes hooks for those fields; finishing it checks the types once more, as a
whole, and gives up the right to add hooks.
-/

namespace RowGraph

structure Blueprint where
  document : Document
  -- The declared types, each with distinct fields.
  declared : List TypeDef
  resolvers : ResolverMap
  hooks : HookMap

structure Schema where
  document : Document
  resolvers : ResolverMap
  hooks : HookMap
  catalog : Catalog
  settings : Settings

namespace Blueprint

def ofDocument (d : Document) : Except SchemaProblem Blueprint := do
  let resolvers : ResolverMap := FieldMap.ofList (← d.derive)
  let hooks := resolvers.toList.foldl (fun m e => HookMap.placeholder m e.1 e.2.1) FieldMap.empty
  .ok { document := d, declared := d.types.map TypeDef.distinct, resolvers, hooks }

def read (source : String) : Except SchemaProblem Blueprint := do ofDocument (← Document.read source)

def attach (b : Blueprint) (type field : String) (h : Hook) : Except SchemaProblem Blueprint := do
  .ok { b with hooks := (← b.hooks.attach type field h) }

-- A declared type or a built-in scalar.
def type? (b : Blueprint) (name : String) : Option TypeDef :=
  (b.declared.find? fun t => t.name = name) <|> Catalog.scalars.find? fun t => t.name = name

def missing (b : Blueprint) (names : List String) : List SchemaProblem :=
  (names.filter fun n => (b.type? n).isNone).map .typeNotFound

-- Names that stand for nothing: the types of fields before those of arguments.
def missingTypes (b : Blueprint) : List SchemaProblem :=
  b.missing (b.document.query :: b.document.mutation.toList) ++
    b.declared.flatMap fun t =>
      match t.body with
      | .object fields =>
        b.missing (fields.map fun f => f.type.name) ++
          b.missing (fields.flatMap fun f => f.arguments.map fun a => a.type.name)
      | .input fields => b.missing (fields.map fun f => f.type.name)
      | _ => []

def argumentProblems (b : Blueprint) (type field : String) (a : InputDef) : List SchemaProblem :=
  (if isReserved a.name then [.reservedArgument type field a.name] else []) ++
    match b.type? a.type.name with
    | some t => if t.isInput then [] else [.argumentNotAccepted type field a.name]
    | none => []

def fieldProblems (b : Blueprint) (type : String) (f : FieldDef) : List SchemaProblem :=
  (if isReserved f.name then [.reservedField type f.name] else []) ++
    (match b.type? f.type.name with
      | some t => if t.isOutput then [] else [.notOutput type f.name]
      | none => []) ++
    f.arguments.flatMap (b.argumentProblems type f.name)

def objectProblems (b : Blueprint) : List SchemaProblem :=
  b.declared.flatMap fun t =>
    match t.body with
    | .object fields =>
      (if fields.isEmpty then [.objectWithoutFields t.name] else []) ++
        fields.flatMap (b.fieldProblems t.name)
    | _ => []

def inputFieldProblems (b : Blueprint) (type : String) (f : InputDef) : List SchemaProblem :=
  (if isReserved f.name then [.reservedField type f.name] else []) ++
    match b.type? f.type.name with
    | some t => if t.isInput then [] else [.inputNotAccepted type f.name]
    | none => []

-- The types that every object of an input type must contain.
def required (b : Blueprint) (type : String) : List String :=
  match (b.type? type).bind TypeDef.inputFields? with
  | some fields => fields.filterMap fun f =>
      match f.type with
      | .named name true => some name
      | _ => none
  | none => []

def containsItself (b : Blueprint) (type : String) : Bool :=
  (closure b.required (b.declared.map fun t => t.name) (b.required type)).contains type

def inputProblems (b : Blueprint) : List SchemaProblem :=
  b.declared.flatMap fun t =>
    match t.body with
    | .input fields =>
      fields.flatMap (b.inputFieldProblems t.name) ++
        if b.containsItself t.name then [.selfReference t.name] else []
    | _ => []

def checkProblems (b : Blueprint) : List SchemaProblem :=
  b.missingTypes ++ b.objectProblems ++ b.inputProblems

-- What stops a type, taken by itself, from being served.
def typeProblems (b : Blueprint) (t : TypeDef) : List GraphError :=
  match t.body with
  | .object fields =>
    (fields.filter fun f => !FieldMap.contains b.resolvers t.name f.name).map fun f =>
      .internal ("no resolver was derived for `" ++ t.name ++ "." ++ f.name ++ "`")
  | .interface _ | .union _ => [SchemaProblem.error (.abstractType t.name)]
  | _ => []

def problems (b : Blueprint) : List GraphError :=
  b.document.types.flatMap b.typeProblems ++ b.checkProblems.map SchemaProblem.error

-- The first problem decides.
def finish (b : Blueprint) (settings : Settings) : Except GraphError Schema :=
  match b.problems with
  | e :: _ => .error e
  | [] => .ok {
      document := b.document
      resolvers := b.resolvers
      hooks := b.hooks
      catalog := Catalog.ofDocument b.document settings.introspection
      settings }

end Blueprint

end RowGraph
