import RowGraph.Execution.Outcome
/-!
Answers to questions about the schema itself: every field of the describing types, computed from
the catalog alone. A type expression is described level by level, its outermost mark first.
-/

namespace RowGraph

-- A part of the schema as shown to clients.
inductive Described where
  | schema
  | type (t : TypeExpr)
  | field (f : FieldDef)
  | input (i : InputDef)
  | enumValue (name : String) (description : Option String)
  | directive (d : KnownDirective)

-- What a question about a part leads to.
inductive Described.Answer where
  | leaf (d : Datum)
  | leaves (ds : List Datum)
  | part (d : Described)
  | parts (ds : List Described)

namespace Described

def typeName : Described → String
  | .schema => "__Schema"
  | .type _ => "__Type"
  | .field _ => "__Field"
  | .input _ => "__InputValue"
  | .enumValue _ _ => "__EnumValue"
  | .directive _ => "__Directive"

def text (s : String) : Option Answer := some (.leaf (.string s))

def text? (s : Option String) : Option Answer := s.bind text

def flag (b : Bool) : Option Answer := some (.leaf (.bool b))

def choice (value : String) : Option Answer := some (.leaf (.enum value))

def named (name : String) : Described := .type (.named name false)

-- Nothing in a schema is ever deprecated.
def deprecation (question : String) : Option Answer :=
  if question = "isDeprecated" then flag false else none

-- Values of declared enums come without a text.
def valuesOf (c : Catalog) (t : TypeDef) : Option (List Described) :=
  match t.body with
  | .enum values =>
    some (values.map fun v =>
      .enumValue v (if c.isDeclared t.name then none else Description.enumValue? t.name v))
  | _ => none

def answerNamed (c : Catalog) (t : TypeDef) : String → Option Answer
  | "kind" => choice t.kindName
  | "name" => text t.name
  | "description" => text? t.description
  | "fields" => t.objectFields?.map fun fields => .parts (fields.map .field)
  | "interfaces" => t.objectFields?.map fun _ => .parts []
  | "enumValues" => (valuesOf c t).map .parts
  | "inputFields" => t.inputFields?.map fun fields => .parts (fields.map .input)
  | "isOneOf" => t.inputFields?.bind fun _ => flag false
  | _ => none

def answerWrapped (kind : String) (inside : TypeExpr) : String → Option Answer
  | "kind" => choice kind
  | "ofType" => some (.part (.type inside))
  | _ => none

def answerType (c : Catalog) (t : TypeExpr) (question : String) : Option Answer :=
  if t.nonNull then answerWrapped "NON_NULL" t.asNullable question
  else match t with
    | .list item _ => answerWrapped "LIST" item question
    | .named name _ => (c.type? name).bind fun t => answerNamed c t question

-- The text about the schema as a whole is the same for all of them.
def aboutSchemas : String :=
  "A GraphQL Schema defines the capabilities of a GraphQL server. It exposes all available types " ++
    "and directives on the server, as well as the entry points for query, mutation, and " ++
    "subscription operations."

def answerSchema (c : Catalog) : String → Option Answer
  | "description" => text aboutSchemas
  | "types" =>
    let names := Assoc.ofList (c.shown.map fun t => (t.name, ()))
    some (.parts (names.map fun n => named n.1))
  | "queryType" => some (.part (named c.query))
  | "mutationType" => c.mutation.map fun name => .part (named name)
  | "directives" => some (.parts (KnownDirective.all.map .directive))
  | _ => none

def answerField (f : FieldDef) : String → Option Answer
  | "name" => text f.name
  | "description" => text? f.description
  | "args" => some (.parts (f.arguments.map .input))
  | "type" => some (.part (.type f.type))
  | other => deprecation other

def answerInput (i : InputDef) : String → Option Answer
  | "name" => text i.name
  | "description" => text? i.description
  | "type" => some (.part (.type i.type))
  | "defaultValue" => text? (i.fallback.map Datum.display)
  | other => deprecation other

def answerEnumValue (name : String) (description : Option String) : String → Option Answer
  | "name" => text name
  | "description" => text? description
  | other => deprecation other

def answerDirective (d : KnownDirective) : String → Option Answer
  | "name" => text d.name
  | "description" => text d.description
  | "locations" =>
    some (.leaves ((d.sites.map DirectiveSite.text ++ d.otherSites).map .enum))
  | "args" => some (.parts (d.arguments.map .input))
  | "isRepeatable" => flag false
  | _ => none

-- No answer is null.
def answer (c : Catalog) : Described → String → Option Answer
  | .schema, question => answerSchema c question
  | .type t, question => answerType c t question
  | .field f, question => answerField f question
  | .input i, question => answerInput i question
  | .enumValue name description, question => answerEnumValue name description question
  | .directive d, question => answerDirective d question

-- What the two fields that lead to the description start from.
def enter (c : Catalog) (arguments : Arguments) : String → Option Described
  | "__schema" => some .schema
  | _ =>
    match Members.get? "name" arguments with
    | some (.string name) => (c.shown? name).map fun t => named t.name
    | _ => none

end Described

end RowGraph
