import RowGraph.Execution.Run
/-!
From what a resolver hands on to response data, as the declared type of the field asks for. Leaf
values are passed through as they are, except that an enum field only shows its own values. Each
element of a list is a position of its own. What an object shows is left to the caller.
-/

namespace RowGraph.Complete

variable {σ : Type}

def fail (path : Path) (loc : Location) (message : String) : Exec σ α :=
  throw { message, path, locations := [loc] }

-- The object of a type that a resolver has delivered for a position.
abbrev ObjectData (σ : Type) := TypeDef → Outcome → Path → Exec σ Datum

def enumValue (t : TypeDef) (values : List String) (path : Path) (loc : Location)
    (o : Outcome) : Exec σ Datum :=
  let invalid : Exec σ Datum := fail path loc ("internal: invalid item for enum \"" ++ t.name ++ "\"")
  match o with
  | .leaf (.enum v) => if values.contains v then pure (.enum v) else invalid
  | .leaf (.string v) => if values.contains v then pure (.enum v) else invalid
  | _ => invalid

def value (t : TypeDef) (object : ObjectData σ) (path : Path) (loc : Location) (o : Outcome) :
    Exec σ Datum :=
  match t.body with
  | .object _ => object t o path
  | .enum values => enumValue t values path loc o
  | _ =>
    match o with
    | .leaf d => pure d
    | _ => fail path loc ("internal: invalid value for scalar \"" ++ t.name ++ "\"")

-- Every element is guarded under its own index.
def elements (nullable : Bool) (path : Path) (body : Path → α → Exec σ (Option Datum)) :
    (index : Nat) → List α → Exec σ (List Datum)
  | _, [] => pure []
  | index, o :: rest => do
    let here := path ++ [.index index]
    let d ← Exec.element here nullable (body here o)
    let ds ← elements nullable path body (index + 1) rest
    pure (d.getD .null :: ds)

def absent (nonNull : Bool) (path : Path) (loc : Location) : Exec σ (Option Datum) :=
  if nonNull then fail path loc "internal: non-null types require a return value" else pure none

def outcome (c : Catalog) (object : ObjectData σ) (loc : Location) :
    TypeExpr → Path → Option Outcome → Exec σ (Option Datum)
  | .named _ nonNull, path, none => absent nonNull path loc
  | .list _ nonNull, path, none => absent nonNull path loc
  | .named name _, path, some o =>
    match c.type? name with
    | some t => some <$> value t object path loc o
    | none => pure none
  | .list item _, path, some o =>
    let each (items : List Outcome) : Exec σ (Option Datum) :=
      (some ∘ Datum.list) <$>
        elements item.nullable path (fun here o => outcome c object loc item here (some o)) 0 items
    match o with
    | .list items => each items
    | .leaf (.list items) => each (items.map .leaf)
    | _ => fail path loc "internal: expects an array"

end RowGraph.Complete
