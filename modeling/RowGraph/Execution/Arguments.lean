import RowGraph.Execution.Run
/-!
The arguments of a field as its resolver sees them: variables are replaced by their values, and what
was not written has its default.
-/

namespace RowGraph

-- What stays the same while one operation is executed.
structure Execution (σ : Type) where
  schema : Schema
  backend : Backend σ
  -- The variables of the operation, and the values that came with the request.
  declared : List VariableDef
  given : List (String × Datum)

namespace Execution

variable {σ : Type}

-- Without a value of its own a variable has its default, and a nullable one is null.
def variableValue (x : Execution σ) (loc : Location) (name : String) : Except ResponseError Datum :=
  let undefined : ResponseError :=
    { message := "Variable " ++ name ++ " is not defined.", locations := [loc] }
  match x.declared.find? fun v => v.name = name with
  | none => .error undefined
  | some v =>
    match Members.get? name x.given <|> v.fallback with
    | some d => .ok d
    | none => if v.type.nullable then .ok .null else .error undefined

def argumentValue (x : Execution σ) (a : Argument) : Except ResponseError Datum :=
  a.value.eval (x.variableValue a.valueLoc)

def givenArguments (x : Execution σ) : List Argument → Except ResponseError Arguments
  | [] => .ok []
  | a :: rest => do
    let d ← x.argumentValue a
    let ds ← x.givenArguments rest
    .ok ((a.name, d) :: ds)

-- Only an argument that was not written has its default.
def withDefaults (known : List InputDef) (given : Arguments) : Arguments :=
  given ++ known.filterMap fun d =>
    if given.any fun a => a.1 = d.name then none else d.fallback.map fun v => (d.name, v)

def arguments (x : Execution σ) (f : FieldDef) (head : FieldHead) : Exec σ Arguments := do
  let given ← (x.givenArguments head.arguments : Except ResponseError Arguments)
  pure (withDefaults f.arguments given)

end Execution

end RowGraph
