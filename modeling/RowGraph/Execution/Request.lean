import RowGraph.Execution.Selections
import RowGraph.Validation.Request
/-!
Requests against a schema: a text, the operation to run and values for its variables. A request is
read, measured and checked before anything of it runs, and the first stage that turns it down
decides the answer.
-/

namespace RowGraph

structure Request where
  source : String
  operation : Option String := none
  values : List (String × Datum) := []

namespace Request

inductive Refusal where
  -- The text is no request.
  | malformed
  | errors (errors : List ResponseError)

-- An operation with its selection tree.
structure Measured where
  operation : OperationDef
  nodes : List Node

def tooDeep (brace : Location) : ResponseError :=
  { message := "The recursion depth of the query cannot be greater than `" ++
      toString Node.maxLevels ++ "`"
    locations := [brace] }

def measure (q : Query) (o : OperationDef) : Except Refusal Measured :=
  match Node.ofOperation q o with
  | .ok nodes => .ok ⟨o, nodes⟩
  | .error brace => .error (.errors [tooDeep brace])

-- The cost is that of all operations together, the depth that of the deepest; an operation whose
-- kind has no root counts for neither.
def checkLimits (s : Schema) (all : List Measured) : Except Refusal Unit :=
  let operations := all.filter fun m => (s.catalog.root? m.operation.kind).isSome
  let settings := s.settings
  if settings.complexityLimit < Node.costAll (operations.flatMap Measured.nodes) then
    .error (.errors [{ message := "Query is too complex." }])
  else if operations.any fun m => settings.depthLimit < Node.depthAll m.nodes then
    .error (.errors [{ message := "Query is nested too deep." }])
  else .ok ()

def checkRules (ctx : Validation.Context) : Except Refusal Unit :=
  match Validation.errors ctx with
  | [] => .ok ()
  | errors => .error (.errors errors)

-- A single operation without a name cannot be asked for by name.
def choose (wanted : Option String) (operations : List Measured) : Except Refusal Measured :=
  let refuse (message : String) : Except Refusal Measured := .error (.errors [{ message }])
  match wanted with
  | some name =>
    match operations.find? fun m => m.operation.name = some name with
    | some m => .ok m
    | none => refuse ("Unknown operation named \"" ++ name ++ "\"")
  | none =>
    match operations with
    | [m] => .ok m
    | _ => refuse "Operation name required in request."

def prepare (r : Request) (s : Schema) : Except Refusal Measured := do
  let q ← match Query.read? r.source with
    | some q => .ok q
    | none => .error .malformed
  let operations ← q.operations.mapM (measure q)
  checkLimits s operations
  checkRules ⟨s.catalog, q, r.values⟩
  let m ← choose r.operation operations
  .ok { m with nodes := Node.pruneAll r.values m.nodes }

end Request

-- What became of a request: the response, the store after it, and the hooks that were called. A
-- text that is no request has no response.
structure Answer (σ : Type) where
  response : Option Response
  store : σ
  calls : List HookCall

variable {σ : Type}

def Schema.execute (s : Schema) (b : Backend σ) (r : Request) (store : σ) : Answer σ :=
  match r.prepare s with
  | .error .malformed => ⟨none, store, []⟩
  | .error (.errors errors) => ⟨some (.refused errors), store, []⟩
  | .ok m =>
    match (s.catalog.root? m.operation.kind).bind s.catalog.type? with
    | none => ⟨some (.refused [Validation.notConfigured m.operation]), store, []⟩
    | some root =>
      let x : Execution σ := ⟨s, b, m.operation.variableDefs, r.values⟩
      let (response, run) := x.run root m.nodes store
      ⟨some response, run.store, run.calls⟩

end RowGraph
