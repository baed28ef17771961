import RowGraph.Language.Literal
import RowGraph.Language.OperationKind
/-!
Definitions of a type-system document and their grammar. Definitions keep everything that a later
stage looks at and nothing of how they were laid out.
-/

namespace RowGraph

structure DirectiveUse where
  name : String
  arguments : List (String × Datum) := []

def DirectiveUse.argument? (d : DirectiveUse) (name : String) : Option Datum :=
  Members.get? name d.arguments

-- An argument of a field or a field of an input object.
structure InputDef where
  name : String
  type : TypeExpr
  fallback : Option Datum := none
  directives : List DirectiveUse := []
  description : Option String := none

structure FieldDef where
  name : String
  arguments : List InputDef := []
  type : TypeExpr
  directives : List DirectiveUse := []
  description : Option String := none

inductive TypeBody where
  | scalar
  | object (fields : List FieldDef)
  | interface (fields : List FieldDef)
  | union (members : List String)
  | enum (values : List String)
  | input (fields : List InputDef)

structure TypeDef where
  name : String
  body : TypeBody
  isExtension : Bool := false
  description : Option String := none

structure RootsDef where
  query : Option String := none
  mutation : Option String := none
  subscription : Option String := none
  isExtension : Bool := false

-- What a directive definition says is of no use to a schema.
inductive Definition where
  | roots (d : RootsDef)
  | type (d : TypeDef)
  | directive (name : String)

namespace TypeDef

def objectFields? (d : TypeDef) : Option (List FieldDef) :=
  match d.body with
  | .object fields => some fields
  | _ => none

def inputFields? (d : TypeDef) : Option (List InputDef) :=
  match d.body with
  | .input fields => some fields
  | _ => none

end TypeDef

namespace Definition

open Grammar

def directiveUse : Grammar DirectiveUse := do
  symbol '@'
  let name ← Grammar.name
  let arguments ← block '(' ')' do
    let name ← Grammar.name
    symbol ':'
    let v ← Literal.constantGrammar
    pure (name, v)
  pure { name, arguments }

def inputDef : Grammar InputDef := do
  let description ← opt string
  let name ← Grammar.name
  symbol ':'
  let type ← typeExpr
  let fallback ← opt do
    symbol '='
    Literal.constantGrammar
  let directives ← many directiveUse
  pure { name, type, fallback, directives, description }

def fieldDef : Grammar FieldDef := do
  let description ← opt string
  let name ← Grammar.name
  let arguments ← block '(' ')' inputDef
  symbol ':'
  let type ← typeExpr
  let directives ← many directiveUse
  pure { name, arguments, type, directives, description }

def enumValue : Grammar String := do
  let _ ← opt string
  let name ← Literal.enumName
  let _ ← many directiveUse
  pure name

def implementsClause : Grammar (List String) := do
  literal "implements"
  separated '&' name

def unionMembers : Grammar (List String) := do
  symbol '='
  separated '|' name

def typeKinds : List String := ["scalar", "type", "interface", "union", "enum", "input"]

-- The part of a type definition after its kind and name; the number tells how many of the parts
-- were there that an extension may consist of. What an interface implements is none of them.
def typeBody (kind : String) : Grammar (TypeBody × Nat) := do
  match kind with
  | "scalar" =>
    let directives ← many directiveUse
    pure (.scalar, directives.length)
  | "type" =>
    let interfaces ← opt implementsClause
    let directives ← many directiveUse
    let fields ← block '\x7b' '\x7d' fieldDef
    pure (.object fields, (interfaces.getD []).length + directives.length + fields.length)
  | "interface" =>
    let _ ← opt implementsClause
    let directives ← many directiveUse
    let fields ← block '\x7b' '\x7d' fieldDef
    pure (.interface fields, directives.length + fields.length)
  | "union" =>
    let directives ← many directiveUse
    let members ← opt unionMembers
    pure (.union (members.getD []), directives.length + (members.getD []).length)
  | "enum" =>
    let directives ← many directiveUse
    let values ← block '\x7b' '\x7d' enumValue
    pure (.enum values, directives.length + values.length)
  | "input" =>
    let directives ← many directiveUse
    let fields ← block '\x7b' '\x7d' inputDef
    pure (.input fields, directives.length + fields.length)
  | _ => failure

def typeDef : Grammar Definition := do
  let description ← opt string
  let kind ← word typeKinds
  let name ← Grammar.name
  let (body, _) ← typeBody kind
  pure (.type { name, body, description })

-- An extension has to extend something.
def typeExtension : Grammar Definition := do
  literal "extend"
  let kind ← word typeKinds
  let name ← Grammar.name
  let (body, parts) ← typeBody kind
  if parts = 0 then failure
  pure (.type { name, body, isExtension := true })

def setRoot (d : RootsDef) (kind : OperationKind) (name : String) : Option RootsDef :=
  match kind with
  | .query => if d.query.isSome then none else some { d with query := some name }
  | .mutation => if d.mutation.isSome then none else some { d with mutation := some name }
  | .subscription =>
    if d.subscription.isSome then none else some { d with subscription := some name }

-- No root is named twice.
def setRoots (d : RootsDef) : List (OperationKind × String) → Option RootsDef
  | [] => some d
  | (kind, name) :: rest => (setRoot d kind name).bind fun d => setRoots d rest

def rootEntries : Grammar RootsDef := do
  let entries ← between '\x7b' '\x7d' (many1 do
    let kind ← OperationKind.grammar
    symbol ':'
    pure (kind, ← name))
  match setRoots {} entries with
  | some d => pure d
  | none => failure

-- Only an extension may do without a query root.
def rootsDef : Grammar Definition := do
  literal "schema"
  let _ ← many directiveUse
  let d ← rootEntries
  if d.query.isNone then failure
  pure (.roots d)

def rootsExtension : Grammar Definition := do
  literal "extend"
  literal "schema"
  let directives ← many directiveUse
  let d ← opt rootEntries
  if directives.isEmpty && d.isNone then failure
  pure (.roots { d.getD {} with isExtension := true })

-- The places in a text where a directive may stand.
def directiveSites : List String :=
  ["QUERY", "MUTATION", "SUBSCRIPTION", "FIELD", "FRAGMENT_DEFINITION", "FRAGMENT_SPREAD",
    "INLINE_FRAGMENT", "VARIABLE_DEFINITION", "SCHEMA", "SCALAR", "OBJECT", "FIELD_DEFINITION",
    "ARGUMENT_DEFINITION", "INTERFACE", "UNION", "ENUM", "ENUM_VALUE", "INPUT_OBJECT",
    "INPUT_FIELD_DEFINITION"]

-- Of two sites whose names start alike the longer is tried first.
def directiveSite : Grammar String :=
  word (directiveSites.mergeSort fun a b => b.length ≤ a.length)

def directiveDef : Grammar Definition := do
  let _ ← opt string
  literal "directive"
  symbol '@'
  let name ← Grammar.name
  let _ ← block '(' ')' inputDef
  let _ ← opt (literal "repeatable")
  literal "on"
  let _ ← separated '|' directiveSite
  pure (.directive name)

def definition : Grammar Definition :=
  firstOf [rootsDef, rootsExtension, typeDef, typeExtension, directiveDef]

-- The definitions of a document, which has at least one; `none` if the text is malformed.
def readAll? (source : String) : Option (List Definition) := run (many1 definition) source

end Definition

end RowGraph
