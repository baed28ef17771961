import RowGraph.Language.Definition
import RowGraph.Language.Query
/-!
What every schema has without declaring it: directives, and the types that describe the schema to
its clients. All of it comes with a text for people, as declared types may. A document may declare
a type under the name of a describing one; then its own type counts wherever names are looked up.
-/

namespace RowGraph

-- Names that begin like those of the describing types.
def isReserved (name : String) : Bool := name.startsWith "__"

def closureFrom (step : String → List String) : Nat → (seen pending : List String) → List String
  | 0, seen, _ => seen
  | _ + 1, seen, [] => seen
  | fuel + 1, seen, name :: pending =>
    if seen.contains name then closureFrom step fuel seen pending
    else closureFrom step fuel (name :: seen) (step name ++ pending)

-- Everything that can be reached from `start`, if only the known names lead anywhere. Each of them
-- puts the names it leads to on once.
def closure (step : String → List String) (known start : List String) : List String :=
  closureFrom step (start.length + (known.flatMap step).length + 1) [] start

namespace FieldDef

-- The names that a field mentions: its type and the types of its arguments.
def mentions (f : FieldDef) : List String := f.type.name :: f.arguments.map fun a => a.type.name

end FieldDef

namespace TypeDef

def mentions (t : TypeDef) : List String :=
  match t.body with
  | .object fields => fields.flatMap FieldDef.mentions
  | .input fields => fields.map fun f => f.type.name
  | _ => []

end TypeDef

-- Where a directive of a request stands.
inductive DirectiveSite where
  | query
  | mutation
  | subscription
  | field
  | fragmentDefinition
  | fragmentSpread
  | inlineFragment
  | variableDefinition
deriving DecidableEq, Repr

def DirectiveSite.text : DirectiveSite → String
  | .query => "QUERY"
  | .mutation => "MUTATION"
  | .subscription => "SUBSCRIPTION"
  | .field => "FIELD"
  | .fragmentDefinition => "FRAGMENT_DEFINITION"
  | .fragmentSpread => "FRAGMENT_SPREAD"
  | .inlineFragment => "INLINE_FRAGMENT"
  | .variableDefinition => "VARIABLE_DEFINITION"

-- The sites outside requests are of no use to a request; they are kept as texts.
structure KnownDirective where
  name : String
  description : String
  sites : List DirectiveSite := []
  otherSites : List String := []
  arguments : List InputDef := []

namespace KnownDirective

def selections : List DirectiveSite := [.field, .fragmentSpread, .inlineFragment]

def condition (description : String) : InputDef :=
  { name := "if", type := .named "Boolean" true, description := some description }

def all : List KnownDirective :=
  [ { name := "deprecated"
      description := "Marks an element of a GraphQL schema as no longer supported."
      otherSites := ["FIELD_DEFINITION", "ARGUMENT_DEFINITION", "INPUT_FIELD_DEFINITION",
        "ENUM_VALUE"]
      arguments := [{
        name := "reason"
        type := .named "String" false
        fallback := some (.string "No longer supported")
        description := some
          "A reason for why it is deprecated, formatted using Markdown syntax" }] },
    { name := "include"
      description := "Directs the executor to include this field or fragment only when the `if` " ++
        "argument is true."
      sites := selections
      arguments := [condition "Included when true."] },
    { name := "oneOf"
      description := "Indicates that an Input Object is a OneOf Input Object (and thus requires " ++
        "exactly one of its field be provided)"
      otherSites := ["INPUT_OBJECT"] },
    { name := "skip"
      description := "Directs the executor to skip this field or fragment when the `if` argument " ++
        "is true."
      sites := selections
      arguments := [condition "Skipped when true."] },
    { name := "specifiedBy"
      description := "Provides a scalar specification URL for specifying the behavior of custom " ++
        "scalar types."
      otherSites := ["SCALAR"]
      arguments := [{
        name := "url"
        type := .named "String" true
        description := some "URL that specifies the behavior of this scalar." }] } ]

def find? (name : String) : Option KnownDirective := all.find? fun d => d.name = name

end KnownDirective

namespace Description

def lines (ls : List String) : String := "\n".intercalate ls

-- Where the standard for doubles is explained.
def doubles : String := "https:" ++ "//en.wikipedia.org/wiki/IEEE_floating_point"

def scalar? : String → Option String
  | "Boolean" => some "The `Boolean` scalar type represents `true` or `false`."
  | "Int" => some "The `Int` scalar type represents non-fractional whole numeric values."
  | "Float" => some ("The `Float` scalar type represents signed double-precision fractional " ++
      "values as specified by [IEEE 754](" ++ doubles ++ ").")
  | "String" => some (lines [
      "The `String` scalar type represents textual data, represented as UTF-8",
      "character sequences. The String type is most often used by GraphQL to",
      "represent free-form human-readable text."])
  | _ => none

def plain (name : String) : TypeExpr := .named name false

def sure (name : String) : TypeExpr := .named name true

def listed (name : String) : TypeExpr := .list (sure name) false

def surelyListed (name : String) : TypeExpr := .list (sure name) true

def field (name : String) (type : TypeExpr) : FieldDef := { name, type }

def explained (name : String) (type : TypeExpr) (description : List String) : FieldDef :=
  { name, type, description := some (lines description) }

def withDeprecated (name : String) (type : TypeExpr) : FieldDef :=
  { name, type
    arguments := [{ name := "includeDeprecated", type := sure "Boolean"
                    fallback := some (.bool false) }] }

def object (name : String) (description : List String) (fields : List FieldDef) : TypeDef :=
  { name, body := .object fields, description := some (lines description) }

-- The kinds of types, with what is said of them.
def kinds : List (String × String) :=
  [ ("SCALAR", "Indicates this type is a scalar."),
    ("OBJECT", lines ["Indicates this type is an object. `fields` and `interfaces` are valid",
      "fields."]),
    ("INTERFACE", lines ["Indicates this type is an interface. `fields` and `possibleTypes` are",
      "valid fields."]),
    ("UNION", "Indicates this type is a union. `possibleTypes` is a valid field."),
    ("ENUM", "Indicates this type is an enum. `enumValues` is a valid field."),
    ("INPUT_OBJECT", "Indicates this type is an input object. `inputFields` is a valid field."),
    ("LIST", "Indicates this type is a list. `ofType` is a valid field."),
    ("NON_NULL", "Indicates this type is a non-null. `ofType` is a valid field.") ]

-- What a directive stands next to at one of its sites.
def neighbour? : String → Option String
  | "QUERY" => some "a query operation"
  | "MUTATION" => some "a mutation operation"
  | "SUBSCRIPTION" => some "a subscription operation"
  | "FIELD" => some "a field"
  | "FRAGMENT_DEFINITION" => some "a fragment definition"
  | "FRAGMENT_SPREAD" => some "a fragment spread"
  | "INLINE_FRAGMENT" => some "an inline fragment"
  | "VARIABLE_DEFINITION" => some "a variable definition"
  | "SCHEMA" => some "a schema definition"
  | "SCALAR" => some "a scalar definition"
  | "OBJECT" => some "an object type definition"
  | "FIELD_DEFINITION" => some "a field definition"
  | "ARGUMENT_DEFINITION" => some "an argument definition"
  | "INTERFACE" => some "an interface definition"
  | "UNION" => some "a union definition"
  | "ENUM" => some "an enum definition"
  | "ENUM_VALUE" => some "an enum value definition"
  | "INPUT_OBJECT" => some "an input object type definition"
  | "INPUT_FIELD_DEFINITION" => some "an input object field definition"
  | _ => none

def typeKind : String := "__TypeKind"

def directiveLocation : String := "__DirectiveLocation"

def enumValue? (type value : String) : Option String :=
  if type = typeKind then Members.get? value kinds
  else if type = directiveLocation then
    (neighbour? value).map fun n => "Location adjacent to " ++ n ++ "."
  else none

def types : List TypeDef :=
  [ object "__Schema" [
        "A GraphQL Schema defines the capabilities of a GraphQL server. It exposes",
        "all available types and directives on the server, as well as the entry",
        "points for query, mutation, and subscription operations."]
      [explained "description" (sure "String") [
          "description of __Schema for newer graphiql introspection schema",
          "requirements"],
        explained "types" (surelyListed "__Type")
          ["A list of all types supported by this server."],
        explained "queryType" (sure "__Type")
          ["The type that query operations will be rooted at."],
        explained "mutationType" (plain "__Type") [
          "If this server supports mutation, the type that mutation operations will",
          "be rooted at."],
        explained "subscriptionType" (plain "__Type") [
          "If this server support subscription, the type that subscription",
          "operations will be rooted at."],
        explained "directives" (surelyListed "__Directive")
          ["A list of all directives supported by this server."]],
    object "__Type" [
        "The fundamental unit of any GraphQL Schema is the type. There are many kinds",
        "of types in GraphQL as represented by the `__TypeKind` enum.",
        "",
        "Depending on the kind of a type, certain fields describe information about",
        "that type. Scalar types provide no information beyond a name and",
        "description, while Enum types provide their values. Object and Interface",
        "types provide the fields they describe. Abstract types, Union and Interface,",
        "provide the Object types possible at runtime. List and NonNull types compose",
        "other types."]
      [field "kind" (sure typeKind), field "name" (plain "String"),
        field "description" (plain "String"), withDeprecated "fields" (listed "__Field"),
        field "interfaces" (listed "__Type"), field "possibleTypes" (listed "__Type"),
        withDeprecated "enumValues" (listed "__EnumValue"),
        withDeprecated "inputFields" (listed "__InputValue"), field "ofType" (plain "__Type"),
        field "specifiedByURL" (plain "String"), field "isOneOf" (plain "Boolean")],
    object "__Field" [
        "Object and Interface types are described by a list of Fields, each of which",
        "has a name, potentially a list of arguments, and a return type."]
      [field "name" (sure "String"), field "description" (plain "String"),
        withDeprecated "args" (surelyListed "__InputValue"), field "type" (sure "__Type"),
        field "isDeprecated" (sure "Boolean"), field "deprecationReason" (plain "String")],
    object "__InputValue" [
        "Arguments provided to Fields or Directives and the input fields of an",
        "InputObject are represented as Input Values which describe their type and",
        "optionally a default value."]
      [field "name" (sure "String"), field "description" (plain "String"),
        field "type" (sure "__Type"), field "defaultValue" (plain "String"),
        field "isDeprecated" (sure "Boolean"), field "deprecationReason" (plain "String")],
    object "__EnumValue" [
        "One possible value for a given Enum. Enum values are unique values, not a",
        "placeholder for a string or numeric value. However an Enum value is returned",
        "in a JSON response as a string."]
      [field "name" (sure "String"), field "description" (plain "String"),
        field "isDeprecated" (sure "Boolean"), field "deprecationReason" (plain "String")],
    object "__Directive" [
        "A Directive provides a way to describe alternate runtime execution and type",
        "validation behavior in a GraphQL document.",
        "",
        "In some cases, you need to provide options to alter GraphQL's execution",
        "behavior in ways field arguments will not suffice, such as conditionally",
        "including or skipping a field. Directives provide this by describing",
        "additional information to the executor."]
      [field "name" (sure "String"), field "description" (plain "String"),
        field "locations" (surelyListed directiveLocation),
        withDeprecated "args" (surelyListed "__InputValue"),
        field "isRepeatable" (sure "Boolean")],
    { name := typeKind
      body := .enum (kinds.map (·.1))
      description := some "An enum describing what kind of type a given `__Type` is." },
    { name := directiveLocation
      body := .enum Definition.directiveSites
      description := some (lines [
        "A Directive can be adjacent to many parts of the GraphQL language, a",
        "__DirectiveLocation describes one such possible adjacencies."]) } ]

def type? (name : String) : Option TypeDef := types.find? fun t => t.name = name

def field? (type name : String) : Option FieldDef :=
  (type? type).bind fun t => (t.objectFields?.getD []).find? fun f => f.name = name

-- The describing types that come with a document that declares types of these names. A type comes
-- along with what mentions it, and a declared type brings none.
def typesBeside (declared : List String) : List TypeDef :=
  let mentioned (name : String) : List String :=
    if declared.contains name then [] else ((type? name).map TypeDef.mentions).getD []
  let names := closure mentioned (types.map fun t => t.name) ["__Schema"]
  types.filter fun t => names.contains t.name && !declared.contains t.name

-- The fields of the query root that lead to those types.
def entrances : List FieldDef :=
  [ field "__schema" (sure "__Schema"),
    { name := "__type", type := plain "__Type"
      arguments := [{ name := "name", type := sure "String" }] } ]

end Description

end RowGraph
