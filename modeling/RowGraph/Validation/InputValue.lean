import RowGraph.Schema.Catalog
/-!
Whether a value fits an input type. Null fits every nullable type; a single value fits a list of
its own type; anything fits a scalar that the document declares. A value other than an object
passes for an input object here and is left to the resolver.
-/

namespace RowGraph.Catalog

def quotedPath (path : String) (reason : String) : String := "\"" ++ path ++ "\", " ++ reason

def expected (path type : String) : String := quotedPath path ("expected type \"" ++ type ++ "\"")

def enumReason (type : String) (values : List String) (path value : String) : Option String :=
  if values.contains value then none
  else some (quotedPath path ("enumeration type \"" ++ type ++ "\" does not contain the value \"" ++
    value ++ "\""))

-- The verdict on a value that is neither null nor a list, nor an object for an input object.
def leafReason (c : Catalog) (type path : String) (d : Datum) : Option String :=
  match c.type? type with
  | none => none
  | some t =>
    match t.body with
    | .scalar => if scalarTakes type d then none else some (expected path type)
    | .enum values =>
      match d with
      | .enum value => enumReason type values path value
      | .string value => enumReason type values path value
      | _ => some (expected path type)
    | _ => none

-- The verdicts on members, taken together field by field; then names that are no fields.
def objectReason (type path : String) (fields : List InputDef)
    (verdicts : List (String × Option String)) : Option String :=
  let ofField (f : InputDef) : Option String :=
    match verdicts.find? fun v => v.1 = f.name with
    | some (_, verdict) => verdict
    | none =>
      if f.type.nonNull && f.fallback.isNone then
        some (quotedPath path ("field \"" ++ f.name ++ "\" of type \"" ++ f.type.text ++
          "\" is required but not provided"))
      else none
  match fields.findSome? ofField with
  | some reason => some reason
  | none =>
    (verdicts.find? fun v => !fields.any fun f => f.name = v.1).map fun v =>
      quotedPath path ("unknown field \"" ++ v.1 ++ "\" of type \"" ++ type ++ "\"")

def inputFields (c : Catalog) (type : String) : Option (List InputDef) :=
  (c.type? type).bind TypeDef.inputFields?

mutual

-- Why the value does not fit, or nothing.
def inputReason (c : Catalog) (type : TypeExpr) (path : String) : Datum → Option String
  | .null => if type.nonNull then some (expected path type.asNullable.text) else none
  | .list items =>
    match type with
    | .list item _ => itemsReason c item path 0 items
    | .named name _ => leafReason c name path (.list items)
  | .object members =>
    match inputFields c type.name with
    | some fields => objectReason type.name path fields (memberVerdicts c fields path members)
    | none => leafReason c type.name path (.object members)
  | d => leafReason c type.name path d

def itemsReason (c : Catalog) (item : TypeExpr) (path : String) (index : Nat) :
    List Datum → Option String
  | [] => none
  | d :: rest =>
    match inputReason c item (path ++ "." ++ toString index) d with
    | some reason => some reason
    | none => itemsReason c item path (index + 1) rest

def memberVerdicts (c : Catalog) (fields : List InputDef) (path : String) :
    List (String × Datum) → List (String × Option String)
  | [] => []
  | (name, d) :: rest =>
    (name,
      match fields.find? fun f => f.name = name with
      | some f => inputReason c f.type (path ++ "." ++ name) d
      | none => none) :: memberVerdicts c fields path rest

end

end RowGraph.Catalog
