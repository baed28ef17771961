import RowGraph.Proofs.Tandem.Requests
import RowGraph.Proofs.Tandem.Rewriting
import RowGraph.Validation.Request
/-!
Requests in which ids have other forms. Two documents have the same parts, at any places of the two
texts, and ids are written as numbers in one where they are written as texts in the other, though only
where a resolver looks up rows and the schema asks for an id. Variables stand for ids in one form or
the other when their values do.

There is one more place that looks at how an id is written: of fields with one key in one selection set
the arguments are compared. They have to be written alike in both documents or in none.
-/

namespace RowGraph

structure Argument.Rewritten (forms : String → Form) (f : Form) (a a' : Argument) : Prop where
  name : a'.name = a.name
  value : Literal.Rewritten forms f a.value a'.value

-- Directives take no ids.
structure DirectiveCall.Rewritten (forms : String → Form) (d d' : DirectiveCall) : Prop where
  name : d'.name = d.name
  arguments : List.Forall₂ (Argument.Rewritten forms .plain) d.arguments d'.arguments

-- The declaration of an argument that counts.
def TypeDef.argument? (t : TypeDef) (field argument : String) : Option InputDef :=
  (t.field? field).bind fun f => f.arguments.find? fun d => d.name = argument

-- An argument of a field of the type of the object, as far as this is known.
inductive Schema.Site (s : Schema) (on : Option TypeDef) (field argument : String) : Form → Prop where
  | plain : Site s on field argument .plain
  | reads {r : Resolver} {f : Form} : s.site? on field = some r → r.Reads argument f →
      (∀ t d, on = some t → t.argument? field argument = some d → f.Fits s.catalog d.type) →
      Site s on field argument f

def Schema.SiteRewritten (s : Schema) (forms : String → Form) (on : Option TypeDef) (field : String)
    (a a' : Argument) : Prop :=
  ∃ f, s.Site on field a.name f ∧ Argument.Rewritten forms f a a'

structure FieldHead.Rewritten (s : Schema) (forms : String → Form) (on : Option TypeDef)
    (head head' : FieldHead) : Prop where
  label : head'.label = head.label
  name : head'.name = head.name
  arguments : List.Forall₂ (s.SiteRewritten forms on head.name) head.arguments head'.arguments
  directives : List.Forall₂ (DirectiveCall.Rewritten forms) head.directives head'.directives

namespace Validation

-- Whether an argument is written as it is in a field.
def writtenIn (b : FieldHead) (x : Argument) : Bool :=
  match b.arguments.find? fun y => y.name = x.name with
  | some y => x.value == y.value
  | none => false

-- For each field that comes after another one under its key: which arguments of the first one are
-- written as they are in this one.
def repeatsFrom (before : List (Option String × FieldHead)) :
    List (Option String × FieldHead) → List (List Bool)
  | [] => []
  | f :: rest =>
    match before.find? fun e => e.1 = f.1 && e.2.key = f.2.key with
    | some first => first.2.arguments.map (writtenIn f.2) :: repeatsFrom before rest
    | none => repeatsFrom (before ++ [f]) rest

def repeats (q : Query) (selections : List Selection) : List (List Bool) :=
  repeatsFrom [] (gather q selections)

end Validation

-- A request with its variables, before and after ids in it are given other forms.
structure Rewriting where
  before : Query
  after : Query
  values : List (String × Datum)
  values' : List (String × Datum)
  forms : String → Form
  -- Fragments that may be met inside the description of the schema. No resolver is asked there.
  aside : String → Prop

mutual

inductive Selection.Rewritten (s : Schema) (w : Rewriting) :
    Option TypeDef → Selection → Selection → Prop where
  | field {on : Option TypeDef} {head head' : FieldHead} {brace brace' : Location}
      {selections selections' : List Selection} : FieldHead.Rewritten s w.forms on head head' →
      Selection.AllRewritten s w (s.inside on head.name) selections selections' →
      Validation.repeats w.after selections' = Validation.repeats w.before selections →
      Rewritten s w on (.field head brace selections) (.field head' brace' selections')
  | spread {on : Option TypeDef} {name : String} {directives directives' : List DirectiveCall}
      {loc loc' : Location} : List.Forall₂ (DirectiveCall.Rewritten w.forms) directives directives' →
      (∀ f, w.before.fragment? name = some f → on = none → Schema.describes f.condition = true →
        w.aside name) →
      Rewritten s w on (.spread name directives loc) (.spread name directives' loc')
  | inline {on : Option TypeDef} {condition : Option String}
      {directives directives' : List DirectiveCall} {loc loc' brace brace' : Location}
      {selections selections' : List Selection} :
      List.Forall₂ (DirectiveCall.Rewritten w.forms) directives directives' →
      Selection.AllRewritten s w (s.under on condition) selections selections' →
      Validation.repeats w.after selections' = Validation.repeats w.before selections →
      Rewritten s w on (.inline condition directives loc brace selections)
        (.inline condition directives' loc' brace' selections')

inductive Selection.AllRewritten (s : Schema) (w : Rewriting) :
    Option TypeDef → List Selection → List Selection → Prop where
  | nil {on : Option TypeDef} : AllRewritten s w on [] []
  | cons {on : Option TypeDef} {sel sel' : Selection} {rest rest' : List Selection} :
      Selection.Rewritten s w on sel sel' → AllRewritten s w on rest rest' →
      AllRewritten s w on (sel :: rest) (sel' :: rest')

end

-- A default may have another form if the type of its variable asks for ids there.
structure VariableDef.Rewritten (c : Catalog) (forms : String → Form) (v v' : VariableDef) : Prop where
  name : v'.name = v.name
  type : v'.type = v.type
  directives : List.Forall₂ (DirectiveCall.Rewritten forms) v.directives v'.directives
  fallback : v'.fallback = v.fallback ∨ (forms v.name).Fits c v.type ∧
    Option.Rel (Datum.Rewritten (forms v.name)) v.fallback v'.fallback

structure OperationDef.Rewritten (s : Schema) (w : Rewriting) (o o' : OperationDef) : Prop where
  kind : o'.kind = o.kind
  name : o'.name = o.name
  defs : List.Forall₂ (VariableDef.Rewritten s.catalog w.forms) o.variableDefs o'.variableDefs
  directives : List.Forall₂ (DirectiveCall.Rewritten w.forms) o.directives o'.directives
  selections : Selection.AllRewritten s w ((s.catalog.root? o.kind).bind s.catalog.type?)
    o.selections o'.selections
  repeats : Validation.repeats w.after o'.selections = Validation.repeats w.before o.selections

structure FragmentDef.Rewritten (s : Schema) (w : Rewriting) (f f' : FragmentDef) : Prop where
  name : f'.name = f.name
  condition : f'.condition = f.condition
  directives : List.Forall₂ (DirectiveCall.Rewritten w.forms) f.directives f'.directives
  selections : Selection.AllRewritten s w (s.catalog.type? f.condition) f.selections f'.selections
  aside : w.aside f.name → Selection.AllRewritten s w none f.selections f'.selections
  repeats : Validation.repeats w.after f'.selections = Validation.repeats w.before f.selections

structure Rewriting.Keeps (s : Schema) (w : Rewriting) : Prop where
  operations : List.Forall₂ (OperationDef.Rewritten s w) w.before.operations w.after.operations
  fragments : List.Forall₂ (FragmentDef.Rewritten s w) w.before.fragments w.after.fragments
  values : Datum.MembersRewritten w.forms w.values w.values'

-- The same request, or one in which ids have other forms.
inductive Request.Rewritten (s : Schema) : Request → Request → Prop where
  | same (r : Request) : Rewritten s r r
  | ids {r r' : Request} (w : Rewriting) : w.Keeps s → Query.read? r.source = some w.before →
      Query.read? r'.source = some w.after → r.values = w.values → r'.values = w.values' →
      r'.operation = r.operation → Rewritten s r r'

theorem Selection.AllRewritten.isEmpty {s : Schema} {w : Rewriting} {on : Option TypeDef}
    {all all' : List Selection} (same : Selection.AllRewritten s w on all all') :
    all'.isEmpty = all.isEmpty := by
  cases same with
  | nil => rfl
  | cons _ _ => rfl

theorem FieldHead.Rewritten.key {s : Schema} {forms : String → Form} {on : Option TypeDef}
    {head head' : FieldHead} (rewritten : FieldHead.Rewritten s forms on head head') :
    head'.key = head.key := by
  unfold FieldHead.key
  rw [rewritten.label, rewritten.name]

theorem Rewriting.Keeps.fragment? {s : Schema} {w : Rewriting} (keeps : w.Keeps s) (name : String) :
    Option.Rel (FragmentDef.Rewritten s w) (w.before.fragment? name) (w.after.fragment? name) := by
  exact find?_forall₂ keeps.fragments fun f f' same => by rw [same.name]

end RowGraph
