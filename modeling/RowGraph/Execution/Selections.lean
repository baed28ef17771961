import RowGraph.Execution.Commit
import RowGraph.Execution.Inquiry
/-!
Executing a selection tree against a parent. Selections are taken in document order, each to its
end before the next; an error that leaves a selection stops the ones after it. The arguments of a
field are read before its guard is entered, so a variable without a value fails the enclosing
position.
-/

namespace RowGraph

namespace Execution

variable {σ : Type}

-- Hooks run in order until one refuses.
def runHooks (type field : String) (loc : Location) (arguments : Arguments) :
    List Hook → Exec σ Unit
  | [] => pure ()
  | h :: rest => do
    modify fun r => { r with calls := r.calls ++ [⟨type, field, h.label⟩] }
    match h.refusal? arguments with
    | some message => throw { message, locations := [loc] }
    | none => runHooks type field loc arguments rest

def resolver (x : Execution σ) (path : Path) (loc : Location) (arguments : Arguments)
    (parent : Outcome) : Resolver → Resolving σ (Option Outcome)
  | .root argument shape => Resolve.root x.backend argument shape path loc arguments
  | .column name => (Resolve.column name parent : Except GraphError (Option Outcome))
  | .reference column shape => Resolve.reference x.backend column shape path loc parent
  | .value => (Resolve.value parent : Except GraphError (Option Outcome))
  | .mutation plan => Commit.mutation x.backend plan arguments

-- The value of a declared field: hooks first, then the resolver.
def declaredField (x : Execution σ) (type field : String) (path : Path) (loc : Location)
    (arguments : Arguments) (parent : Outcome) : Exec σ (Option Outcome) := do
  runHooks type field loc arguments ((FieldMap.get? x.schema.hooks type field).getD [])
  match FieldMap.get? x.schema.resolvers type field with
  | some r =>
    ExceptT.adapt (fun e : GraphError => e.raisedAt loc) (x.resolver path loc arguments parent r)
  | none => pure none

def entrance? (x : Execution σ) (type : TypeDef) (name : String) : Option FieldDef :=
  (x.schema.catalog.entrances type).find? fun f => f.name = name

def field (x : Execution σ) (type : TypeDef) (parent : Outcome) (path : Path) (head : FieldHead)
    (object : Complete.ObjectData σ) (f : FieldDef) : Exec σ (Option Datum) := do
  let here := path ++ [.field head.key]
  let arguments ← x.arguments f head
  Exec.guard here f.type.nullable do
    let o ← x.declaredField type.name f.name here head.loc arguments parent
    Complete.outcome x.schema.catalog object head.loc f.type here o

mutual

def selection (x : Execution σ) (type : TypeDef) (parent : Outcome) (path : Path) :
    Node → Exec σ (List (String × Datum))
  | .group condition _ children =>
    if applies type.name condition then x.selections type parent path children else pure []
  | .field head children =>
    if head.name = "__typename" then pure [(head.key, .string type.name)]
    else match x.entrance? type head.name, type.field? head.name with
      | some f, _ => do
        let d ← x.enterDescription path head f children
        pure [(head.key, d.getD .null)]
      | none, some f => do
        let object : Complete.ObjectData σ := fun t o here =>
          Datum.ofResults <$> x.selections t o here children
        let d ← x.field type parent path head object f
        pure [(head.key, d.getD .null)]
      | none, none => pure []

def selections (x : Execution σ) (type : TypeDef) (parent : Outcome) (path : Path) :
    List Node → Exec σ (List (String × Datum))
  | [] => pure []
  | n :: rest => do
    let results ← x.selection type parent path n
    let more ← x.selections type parent path rest
    pure (results ++ more)

end

-- The data of an operation. An error that nothing has stopped comes first, then those of the
-- description, then those that were absorbed.
def run (x : Execution σ) (root : TypeDef) (nodes : List Node) (store : σ) :
    Response × Run σ :=
  match (x.selections root .root [] nodes).run { store } with
  | (.ok results, r) => (⟨Datum.ofResults results, r.caught ++ r.absorbed⟩, r)
  | (.error e, r) => (⟨.null, e :: (r.caught ++ r.absorbed)⟩, r)

end Execution

end RowGraph
