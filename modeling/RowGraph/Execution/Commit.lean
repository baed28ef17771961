import RowGraph.Execution.Resolve
import RowGraph.Versionstamp.Datum
/-!
Mutation fields. The items of the bound input fields are collected, in the order of the bindings,
into one operation: each item adds one check and one write on its key. An operation of no items is
not sent; one that a check turns down leaves the field null.
-/

namespace RowGraph.Commit

variable {σ : Type}

abbrev Item := List (String × Datum)

def itemId (b : Binding) (item : Item) : Except GraphError RowId :=
  match (Members.get? idColumn item).bind Resolve.idOfDatum? with
  | some id => .ok id
  | none => .error (ResolveProblem.itemWithoutId b.field).error

def itemStamp (b : Binding) (item : Item) : Except GraphError Versionstamp :=
  match Members.get? stampField item with
  | none | some .null => .error (ResolveProblem.itemWithoutVersionstamp b.field).error
  | some d =>
    match Versionstamp.ofDatum d with
    | .ok v => .ok v
    | .error e => .error (ResolveProblem.invalidVersionstamp d e.message).error

-- Everything in an item but its id and its stamp.
def itemRow (item : Item) : Except GraphError Row :=
  (Value.ofDatumMembers (item.filter fun m => m.1 ≠ idColumn && m.1 ≠ stampField)).map
    Row.ofColumns

def addItem (b : Binding) (op : Operation) (d : Datum) : Except GraphError Operation := do
  let item ← match d.asObject? with
    | some item => .ok item
    | none => .error (ResolveProblem.itemNotAnObject b.field).error
  let key : Key := ⟨b.table, ← itemId b item⟩
  match b.op with
  | .create =>
    let row ← itemRow item
    .ok ((op.check key none).set key row)
  | .update =>
    let stamp ← itemStamp b item
    let row ← itemRow item
    .ok ((op.check key (some stamp)).set key row)
  | .delete =>
    let stamp ← itemStamp b item
    .ok ((op.check key (some stamp)).delete key)

-- A single value is one item; an absent or null field has none.
def itemsOf (input : List (String × Datum)) (b : Binding) : List Datum :=
  match Members.get? b.field input with
  | none | some .null => []
  | some (.list items) => items
  | some d => [d]

-- The items of all bindings, each with the binding that it came by.
def items (bindings : List Binding) (input : List (String × Datum)) : List (Binding × Datum) :=
  bindings.flatMap fun b => (itemsOf input b).map fun d => (b, d)

def addItems (op : Operation) : List (Binding × Datum) → Except GraphError Operation
  | [] => .ok op
  | (b, d) :: rest => do addItems (← addItem b op d) rest

def operation (plan : MutationPlan) (input : List (String × Datum)) : Except GraphError Operation :=
  addItems {} (items plan.bindings input)

def result (plan : MutationPlan) (stamp : Versionstamp) : Outcome :=
  match plan.result with
  | .stamp => .leaf (.string stamp.text)
  | .object => .row [(stampField, .string stamp.text)]

def send (b : Backend σ) (op : Operation) : Resolving σ (Option Versionstamp) := fun r =>
  match b.commit op r.store with
  | (.ok v, s) => (.ok v, { r with store := s })
  | (.error e, s) => (.error (.store e), { r with store := s })

def mutation (b : Backend σ) (plan : MutationPlan) (arguments : Arguments) :
    Resolving σ (Option Outcome) := do
  let input ← match (Members.get? plan.argument arguments).bind Datum.asObject? with
    | some input => pure input
    | none => throw (ResolveProblem.notAnObject plan.argument).error
  let op ← operation plan input
  if op.isEmpty then pure none
  else
    let stamp ← send b op
    pure (stamp.map (result plan))

end RowGraph.Commit
