import RowGraph.Execution.Run
import RowGraph.Value.Datum
/-!
Resolvers that read. A root field looks rows up by id and shows what is missing as null; a
reference column must lead to a row. All elements of a list are looked up, in order, before
anything is made of them, and a fault of the store at one of them fails the field.
-/

namespace RowGraph.Resolve

variable {σ : Type}

def fetch (b : Backend σ) (key : Key) : Resolving σ (Option Entry) := fun r =>
  match b.get key r.store with
  | (.ok e, s) => (.ok e, { r with store := s })
  | (.error e, s) => (.error (.store e), { r with store := s })

-- Marks an element of the list that is being resolved.
def nullElement (path : Path) (loc : Location) (index : Nat) (e : Option GraphError) :
    Resolving σ Unit :=
  ((Exec.mark (path ++ [.index index]) (e.map fun e => e.raisedAt loc) :
    StateM (Run σ) Unit) : Resolving σ Unit)

-- An id in a request is a text or an integer.
def idOfDatum? : Datum → Option RowId
  | .string s => some ⟨s⟩
  | .number (.int n) => some (RowId.ofInt n)
  | _ => none

def argumentId (argument : String) (d : Datum) : Except GraphError RowId :=
  match idOfDatum? d with
  | some id => .ok id
  | none => .error (ResolveProblem.notAnId argument d).error

-- A null argument is no argument.
def argument? (arguments : Arguments) (name : String) : Option Datum :=
  match Members.get? name arguments with
  | some .null => none
  | d => d

def rootRow (b : Backend σ) (argument table : String) (entry : Bool) (d : Datum) :
    Resolving σ (Option Outcome) := do
  let id ← argumentId argument d
  let e ← fetch b ⟨table, id⟩
  pure (e.map fun e => e.outcome entry)

-- A null among the ids is a row that is not there.
def rootRows (b : Backend σ) (argument table : String) (entry : Bool) :
    List Datum → Resolving σ (List (Option Outcome))
  | [] => pure []
  | d :: rest => do
    let row ← if d.isNull then pure none else rootRow b argument table entry d
    let rows ← rootRows b argument table entry rest
    pure (row :: rows)

-- Elements without a row are marked.
def rootElements (path : Path) (loc : Location) (index : Nat) :
    List (Option Outcome) → Resolving σ (List Outcome)
  | [] => pure []
  | some o :: rest => do
    let os ← rootElements path loc (index + 1) rest
    pure (o :: os)
  | none :: rest => do
    nullElement path loc index none
    let os ← rootElements path loc (index + 1) rest
    pure (.leaf .null :: os)

def root (b : Backend σ) (argument : String) (shape : FieldShape) (path : Path) (loc : Location)
    (arguments : Arguments) : Resolving σ (Option Outcome) :=
  match shape.kind, argument? arguments argument with
  | .scalar, _ => throw (.internal "root query field has a scalar shape")
  | _, none => pure none
  | .reference table, some d => rootRow b argument table shape.entry d
  | .referenceList table _, some (.list ids) => do
    let rows ← rootRows b argument table shape.entry ids
    let items ← rootElements path loc 0 rows
    pure (some (.list items))
  | .referenceList _ _, some _ => throw (ResolveProblem.notAListOfIds argument).error

def parentRow : Outcome → Except GraphError Row
  | .row row => .ok row
  | _ => .error (.internal "failed to downcast the parent row")

-- A stored null is as good as no value.
def stored? (row : Row) (column : String) : Option Value :=
  match row.column? column with
  | some v => if v.isNullish then none else some v
  | none => none

def column (name : String) (parent : Outcome) : Except GraphError (Option Outcome) := do
  let row ← parentRow parent
  match stored? row name with
  | some v => .ok (some (.leaf (← v.toDatum)))
  | none => .ok none

def value (parent : Outcome) : Except GraphError (Option Outcome) := do
  let row ← parentRow parent
  match row.column? valueField with
  | some (.object row) => .ok (some (.row row))
  | _ => .error (.internal "an entry holds no row")

def referencedId (column : String) (v : Value) : Except GraphError RowId :=
  match RowId.ofValue? v with
  | some id => .ok id
  | none => .error (.invalidReference column v.kindName)

-- What a reference leads to.
inductive Link where
  | row (o : Outcome)
  | empty
  | broken (e : GraphError)

-- A fault of the store is not a broken link.
def follow (b : Backend σ) (column table : String) (entry required : Bool) (v : Option Value) :
    Resolving σ Link :=
  match v with
  | none => pure (if required then .broken (.missingReference column) else .empty)
  | some v =>
    match referencedId column v with
    | .error e => pure (.broken e)
    | .ok id => do
      match ← fetch b ⟨table, id⟩ with
      | some e => pure (.row (e.outcome entry))
      | none => pure (.broken (.danglingReference table id))

def present? (v : Value) : Option Value := if v.isNullish then none else some v

def followAll (b : Backend σ) (column table : String) (entry required : Bool) :
    List Value → Resolving σ (List Link)
  | [] => pure []
  | v :: rest => do
    let link ← follow b column table entry required (present? v)
    let links ← followAll b column table entry required rest
    pure (link :: links)

-- A broken element fails the field if the items may not be null; otherwise it is marked with its
-- error.
def linkElements (path : Path) (loc : Location) (required : Bool) (index : Nat) :
    List Link → Resolving σ (List Outcome)
  | [] => pure []
  | .row o :: rest => do
    let os ← linkElements path loc required (index + 1) rest
    pure (o :: os)
  | .empty :: rest => do
    nullElement path loc index none
    let os ← linkElements path loc required (index + 1) rest
    pure (.leaf .null :: os)
  | .broken e :: rest =>
    if required then throw e
    else do
      nullElement path loc index (some e)
      let os ← linkElements path loc required (index + 1) rest
      pure (.leaf .null :: os)

def reference (b : Backend σ) (column : String) (shape : FieldShape) (path : Path) (loc : Location)
    (parent : Outcome) : Resolving σ (Option Outcome) := do
  let row ← parentRow parent
  match shape.kind with
  | .scalar =>
    throw (.internal ("column `" ++ column ++ "` was given a reference resolver for a scalar shape"))
  | .reference table =>
    match ← follow b column table shape.entry shape.nonNull (stored? row column) with
    | .row o => pure (some o)
    | .empty => pure none
    | .broken e => throw e
  | .referenceList table required =>
    match stored? row column with
    | none => if shape.nonNull then throw (.missingReference column) else pure none
    | some (.array items) =>
      let links ← followAll b column table shape.entry required items
      let os ← linkElements path loc required 0 links
      pure (some (.list os))
    | some v => throw (.invalidReference column v.kindName)

end RowGraph.Resolve
