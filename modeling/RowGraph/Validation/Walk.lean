import RowGraph.Validation.Overlap
/-!
The walk over a request. At each node the errors of that node come first, then those of its
arguments, its directives and its selections, in document order. A field whose type is not known is
still walked, without a type. The type name of an object is no declared field and is passed over.

Arguments of a field that is not known are looked up in the innermost field around it that is
known, unless a field or a directive has ended since that field began.
-/

namespace RowGraph.Validation

-- The type that a field belongs to, the field if that type has it, and the type of the field.
structure FieldSite where
  parent : Option TypeDef
  field : Option FieldDef
  type : Option TypeDef

def FieldSite.of (c : Catalog) (parent : Option TypeDef) (name : String) : FieldSite :=
  let field := parent.bind fun t => c.field? t name
  ⟨parent, field, field.bind fun f => c.type? f.type.name⟩

def leafErrors (site : FieldSite) (head : FieldHead) (hasSelections : Bool) : List ResponseError :=
  match site.type with
  | none => []
  | some t =>
    if t.isLeaf then
      when hasSelections head.loc ("Field \"" ++ head.name ++
        "\" must not have a selection since type \"" ++ t.name ++ "\" has no subfields")
    else
      when (!hasSelections) head.loc ("Field \"" ++ head.name ++ "\" of type \"" ++ t.name ++
        "\" must have a selection of subfields")

-- The type in the message is the type that the field belongs to.
def requiredErrors (site : FieldSite) (head : FieldHead) : List ResponseError :=
  match site.parent, site.field with
  | some parent, some f =>
    (required f.arguments head.arguments).map fun a => report [head.loc]
      ("Field \"" ++ head.name ++ "\" argument \"" ++ a.name ++ "\" of type \"" ++ parent.name ++
        "\" is required but not provided")
  | _, _ => []

-- A field under this directive may be missing from its type. The directive itself is not known.
def optionalMark : String := "ifdef"

def unknownFieldErrors (site : FieldSite) (head : FieldHead) : List ResponseError :=
  match site.parent, site.field with
  | some parent, none =>
    when (!head.directives.any fun d => d.name = optionalMark) head.loc
      ("Unknown field \"" ++ head.name ++ "\" on type \"" ++ parent.name ++ "\".")
  | _, _ => []

-- What the arguments of a field are looked up in, given what those before it were looked up in.
def FieldSite.owned (site : FieldSite) (name : String) (before : Owned) : Owned :=
  match site.parent, site.field with
  | some parent, some f => some (.field name parent.name, f.arguments)
  | _, _ => before

-- A directive leaves nothing to look arguments up in.
def afterDirectives (owned : Owned) (directives : List DirectiveCall) : Owned :=
  if directives.isEmpty then owned else none

def fieldFindings (ctx : Context) (site : FieldSite) (owned : Owned) (head : FieldHead)
    (hasSelections : Bool) : Findings :=
  let known := (site.field.map (·.arguments)).getD []
  .ofErrors (repeatedDirectives [] head.directives ++ requiredErrors site head ++
      leafErrors site head hasSelections ++ unknownFieldErrors site head) ++
    argumentFindings ctx owned known [] head.arguments ++
    directivesFindings ctx .field head.directives

def never (parent type : String) : String :=
  " cannot be spread here as objects of type \"" ++ parent ++ "\" can never be of type \"" ++ type ++
    "\""

def spreadFindings (ctx : Context) (current : Option TypeDef) (name : String)
    (directives : List DirectiveCall) (loc : Location) : Findings :=
  let impossible := match current, ctx.query.fragment? name with
    | some t, some f =>
      match ctx.catalog.type? f.condition with
      | some on => when (t.name ≠ on.name) loc ("Fragment \"" ++ name ++ "\"" ++ never t.name on.name)
      | none => []
    | _, _ => []
  .ofErrors (repeatedDirectives [] directives ++ impossible ++
      when (ctx.query.fragment? name).isNone loc ("Unknown fragment: \"" ++ name ++ "\"")) ++
    { spreads := [⟨name, loc⟩] } ++ directivesFindings ctx .fragmentSpread directives

def inlineFindings (ctx : Context) (current : Option TypeDef) (condition : Option String)
    (directives : List DirectiveCall) (loc : Location) : Findings :=
  let notComposite (t : TypeDef) : List ResponseError :=
    when (!t.isComposite) loc ("Fragment cannot condition non composite type \"" ++ t.name ++ "\"")
  let errors := match condition with
    | none => (current.map notComposite).getD []
    | some name =>
      match ctx.catalog.type? name with
      | none => [report [loc] ("Unknown type \"" ++ name ++ "\"")]
      | some on =>
        (match current with
          | some t => when (t.name ≠ on.name) loc ("Fragment" ++ never t.name on.name)
          | none => []) ++ notComposite on
  .ofErrors (repeatedDirectives [] directives ++ errors) ++
    directivesFindings ctx .inlineFragment directives

mutual

-- The findings in a selection, and what the next arguments are looked up in.
def walkOne (ctx : Context) (current : Option TypeDef) (owned : Owned) :
    Selection → Findings × Owned
  | .field head _ selections =>
    if head.name = "__typename" then ({}, owned)
    else
      let site := FieldSite.of ctx.catalog current head.name
      let owned := site.owned head.name owned
      let (inside, _) := walkAll ctx site.type (afterDirectives owned head.directives) selections
      (fieldFindings ctx site owned head (!selections.isEmpty) ++
        .ofErrors (overlapErrors ctx.query selections) ++ inside, none)
  | .spread name directives loc =>
    (spreadFindings ctx current name directives loc, afterDirectives owned directives)
  | .inline condition directives loc _ selections =>
    let type := match condition with
      | some name => ctx.catalog.type? name
      | none => current
    let (inside, owned) := walkAll ctx type (afterDirectives owned directives) selections
    (inlineFindings ctx current condition directives loc ++
      .ofErrors (overlapErrors ctx.query selections) ++ inside, owned)

def walkAll (ctx : Context) (current : Option TypeDef) (owned : Owned) :
    List Selection → Findings × Owned
  | [] => ({}, owned)
  | s :: rest =>
    let (first, owned) := walkOne ctx current owned s
    let (others, owned) := walkAll ctx current owned rest
    (first ++ others, owned)

end

def walkSet (ctx : Context) (current : Option TypeDef) (selections : List Selection) : Findings :=
  .ofErrors (overlapErrors ctx.query selections) ++ (walkAll ctx current none selections).1

def fragmentFindings (ctx : Context) (f : FragmentDef) : Findings :=
  let type := ctx.catalog.type? f.condition
  let condition := match type with
    | none => [report [f.loc] ("Unknown type \"" ++ f.condition ++ "\"")]
    | some t => when (!t.isComposite) f.loc ("Fragment \"" ++ f.name ++
        "\" cannot condition non composite type \"" ++ f.condition ++ "\"")
  .ofErrors (repeatedDirectives [] f.directives ++ condition) ++
    directivesFindings ctx .fragmentDefinition f.directives ++ walkSet ctx type f.selections

-- A variable of a type that is not known is reported twice, the second time instead of a look at
-- its default; below a list it is reported once, and the default is looked at.
def variableErrors (ctx : Context) (before : List String) (v : VariableDef) : List ResponseError :=
  let unknown := when (ctx.catalog.type? v.type.name).isNone v.loc
    ("Unknown type \"" ++ v.type.name ++ "\"")
  let notInput := match ctx.catalog.type? v.type.name with
    | some t => when (!t.isInput) v.loc ("Variable \"" ++ v.name ++
        "\" cannot be of non-input type \"" ++ t.name ++ "\"")
    | none => []
  let unfit := match v.fallback.bind (ctx.catalog.inputReason v.type v.name) with
    | some reason => [report [v.loc] ("Invalid default value for argument: " ++ reason)]
    | none => []
  let fallback := if v.type.isList || unknown.isEmpty then unfit else unknown
  repeatedDirectives [] v.directives ++ notInput ++
    when (before.contains v.name) v.loc ("There can only be one variable named \"$" ++ v.name ++
      "\"") ++ unknown ++ fallback

-- Directives on variables are not looked at any closer.
def variablesErrors (ctx : Context) : (before : List String) → List VariableDef → List ResponseError
  | _, [] => []
  | before, v :: rest => variableErrors ctx before v ++ variablesErrors ctx (v.name :: before) rest

-- Only a mutation may bring files along.
def uploadErrors (ctx : Context) (o : OperationDef) : List ResponseError :=
  o.variableDefs.flatMap fun v =>
    when (o.kind ≠ .mutation && v.type.name = "Upload" && (ctx.catalog.type? v.type.name).isSome)
      v.loc "The Upload type is only allowed to be defined on a mutation"

def siteOf : OperationKind → DirectiveSite
  | .query => .query
  | .mutation => .mutation
  | .subscription => .subscription

def notConfigured (o : OperationDef) : ResponseError :=
  report [o.loc] ("Schema is not configured for " ++ o.kind.text ++ "s.")

-- Nothing inside an operation without a root type is looked at.
def operationFindings (ctx : Context) (o : OperationDef) : Findings :=
  let errors := uploadErrors ctx o ++ repeatedDirectives [] o.directives
  match ctx.catalog.root? o.kind with
  | none => .ofErrors (errors ++ [notConfigured o])
  | some root =>
    .ofErrors (errors ++ variablesErrors ctx [] o.variableDefs) ++
      directivesFindings ctx (siteOf o.kind) o.directives ++
      walkSet ctx (ctx.catalog.type? root) o.selections

end RowGraph.Validation
