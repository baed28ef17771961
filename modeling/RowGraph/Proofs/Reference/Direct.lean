import RowGraph.Execution.Request
import RowGraph.Proofs.Placement.Rows
/-!
An execution without marks. The resolver of a list hands on what became of each of its elements,
together with the list, and an element is completed from that. Everything else is as in the execution
that requests have.
-/

namespace RowGraph

variable {σ : Type}

-- What a resolver hands on: a value, or a list by what became of each element.
inductive Delivery where
  | outcome (o : Option Outcome)
  | elements (links : List Resolve.Link)

namespace Resolve

-- What stands for an element in a list of outcomes.
def Link.outcome : Link → Outcome
  | .row o => o
  | _ => .leaf .null

-- If the items may not be null, the first broken one fails the list.
def whole (required : Bool) : List Link → Except GraphError (List Link)
  | [] => .ok []
  | .broken e :: rest =>
    if required then .error e else (whole required rest).map (.broken e :: ·)
  | link :: rest => (whole required rest).map (link :: ·)

end Resolve

namespace Direct

def root (b : Backend σ) (argument : String) (shape : FieldShape) (arguments : Arguments) :
    Resolving σ Delivery :=
  match shape.kind, Resolve.argument? arguments argument with
  | .scalar, _ => throw (.internal "root query field has a scalar shape")
  | _, none => pure (.outcome none)
  | .reference table, some d => .outcome <$> Resolve.rootRow b argument table shape.entry d
  | .referenceList table _, some (.list ids) => do
    let rows ← Resolve.rootRows b argument table shape.entry ids
    pure (.elements (rows.map .ofRow))
  | .referenceList _ _, some _ => throw (ResolveProblem.notAListOfIds argument).error

def reference (b : Backend σ) (column : String) (shape : FieldShape) (parent : Outcome) :
    Resolving σ Delivery := do
  let row ← Resolve.parentRow parent
  match shape.kind with
  | .scalar =>
    throw (.internal ("column `" ++ column ++ "` was given a reference resolver for a scalar shape"))
  | .reference table =>
    match ← Resolve.follow b column table shape.entry shape.nonNull (Resolve.stored? row column) with
    | .row o => pure (.outcome (some o))
    | .empty => pure (.outcome none)
    | .broken e => throw e
  | .referenceList table required =>
    match Resolve.stored? row column with
    | none => if shape.nonNull then throw (.missingReference column) else pure (.outcome none)
    | some (.array items) =>
      let links ← Resolve.followAll b column table shape.entry required items
      let links ← (Resolve.whole required links : Except GraphError (List Resolve.Link))
      pure (.elements links)
    | some v => throw (.invalidReference column v.kindName)

def resolver (x : Execution σ) (arguments : Arguments) (parent : Outcome) :
    Resolver → Resolving σ Delivery
  | .root argument shape => root x.backend argument shape arguments
  | .column name =>
    .outcome <$> ((Resolve.column name parent : Except GraphError (Option Outcome)) :
      Resolving σ (Option Outcome))
  | .reference column shape => reference x.backend column shape parent
  | .value =>
    .outcome <$> ((Resolve.value parent : Except GraphError (Option Outcome)) :
      Resolving σ (Option Outcome))
  | .mutation plan => .outcome <$> Commit.mutation x.backend plan arguments

def declaredField (x : Execution σ) (type field : String) (loc : Location) (arguments : Arguments)
    (parent : Outcome) : Exec σ Delivery := do
  Execution.runHooks type field loc arguments ((FieldMap.get? x.schema.hooks type field).getD [])
  match FieldMap.get? x.schema.resolvers type field with
  | some r => ExceptT.adapt (fun e : GraphError => e.raisedAt loc) (resolver x arguments parent r)
  | none => pure (.outcome none)

-- A row is completed under a guard; a broken link raises its error at the element.
def element (loc : Location) (here : Path) (nullable : Bool)
    (body : Outcome → Exec σ (Option Datum)) : Resolve.Link → Exec σ (Option Datum)
  | .row o => Exec.guard here nullable (body o)
  | .empty => if nullable then pure none else Exec.absorb here false Exec.missingElement
  | .broken e => Exec.absorb here nullable (e.raisedAt loc)

def elements (loc : Location) (nullable : Bool) (path : Path)
    (body : Path → Outcome → Exec σ (Option Datum)) :
    (index : Nat) → List Resolve.Link → Exec σ (List Datum)
  | _, [] => pure []
  | index, link :: rest => do
    let here := path ++ [.index index]
    let d ← element loc here nullable (body here) link
    let ds ← elements loc nullable path body (index + 1) rest
    pure (d.getD .null :: ds)

def complete (c : Catalog) (object : Complete.ObjectData σ) (loc : Location) (type : TypeExpr)
    (path : Path) : Delivery → Exec σ (Option Datum)
  | .outcome o => Complete.outcome c object loc type path o
  | .elements links =>
    match type with
    | .named _ _ =>
      Complete.outcome c object loc type path (some (.list (links.map Resolve.Link.outcome)))
    | .list item _ =>
      (some ∘ Datum.list) <$>
        elements loc item.nullable path
          (fun here o => Complete.outcome c object loc item here (some o)) 0 links

def field (x : Execution σ) (type : TypeDef) (parent : Outcome) (path : Path) (head : FieldHead)
    (object : Complete.ObjectData σ) (f : FieldDef) : Exec σ (Option Datum) := do
  let here := path ++ [.field head.key]
  let arguments ← x.arguments f head
  Exec.guard here f.type.nullable do
    let o ← declaredField x type.name f.name head.loc arguments parent
    complete x.schema.catalog object head.loc f.type here o

mutual

def selection (x : Execution σ) (type : TypeDef) (parent : Outcome) (path : Path) :
    Node → Exec σ (List (String × Datum))
  | .group condition _ children =>
    if Execution.applies type.name condition then selections x type parent path children else pure []
  | .field head children =>
    if head.name = "__typename" then pure [(head.key, .string type.name)]
    else match x.entrance? type head.name, type.field? head.name with
      | some f, _ => do
        let d ← x.enterDescription path head f children
        pure [(head.key, d.getD .null)]
      | none, some f => do
        let object : Complete.ObjectData σ := fun t o here =>
          Datum.ofResults <$> selections x t o here children
        let d ← field x type parent path head object f
        pure [(head.key, d.getD .null)]
      | none, none => pure []

def selections (x : Execution σ) (type : TypeDef) (parent : Outcome) (path : Path) :
    List Node → Exec σ (List (String × Datum))
  | [] => pure []
  | n :: rest => do
    let results ← selection x type parent path n
    let more ← selections x type parent path rest
    pure (results ++ more)

end

def run (x : Execution σ) (root : TypeDef) (nodes : List Node) (store : σ) : Response × Run σ :=
  match (selections x root .root [] nodes).run { store } with
  | (.ok results, r) => (⟨Datum.ofResults results, r.caught ++ r.absorbed⟩, r)
  | (.error e, r) => (⟨.null, e :: (r.caught ++ r.absorbed)⟩, r)

end Direct

-- The answer to a request by an execution without marks.
def Schema.direct (s : Schema) (b : Backend σ) (r : Request) (store : σ) : Answer σ :=
  match r.prepare s with
  | .error .malformed => ⟨none, store, []⟩
  | .error (.errors errors) => ⟨some (.refused errors), store, []⟩
  | .ok m =>
    match (s.catalog.root? m.operation.kind).bind s.catalog.type? with
    | none => ⟨some (.refused [Validation.notConfigured m.operation]), store, []⟩
    | some root =>
      let x : Execution σ := ⟨s, b, m.operation.variableDefs, r.values⟩
      let (response, run) := Direct.run x root m.nodes store
      ⟨some response, run.store, run.calls⟩

end RowGraph
