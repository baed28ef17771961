import RowGraph.Datum.Merge
import RowGraph.Execution.Arguments
import RowGraph.Execution.Complete
import RowGraph.Execution.Describe
import RowGraph.Execution.Tree
/-!
Executing a selection tree against the description of the schema. What a question is and what it
leads to is fixed, also where a document declares a describing type of its own; of such a type only
the names of its fields count, and which of them may be null. Selections on leaf values are passed
over, and a part without selections is shown empty.

A position of the description that may be null stops errors from below it before its guard does.
-/

namespace RowGraph

namespace Execution

variable {σ : Type}

def applies (type : String) (condition : Option String) : Bool :=
  match condition with
  | none => true
  | some name => name = type

def unfit (known : InputDef) (a : Argument) (d : Datum) : ResponseError :=
  { message := "Expected input type \"" ++ known.type.name ++ "\", found " ++ d.display ++ "."
    locations := [a.valueLoc] }

-- Arguments have to be values of their own scalars. Those that are not known are not read.
def fittingArguments (x : Execution σ) (head : FieldHead) : List InputDef → Exec σ Arguments
  | [] => pure []
  | known :: rest =>
    match head.arguments.find? fun a => a.name = known.name with
    | none => x.fittingArguments head rest
    | some a => do
      let d ← (x.argumentValue a : Except ResponseError Datum)
      if !Catalog.scalarTakes known.type.name d then throw (unfit known a d)
      pure ((known.name, d) :: (← x.fittingArguments head rest))

-- An error inside an element of a list is one of that element.
def answered (part : Described → Path → Exec σ Datum) (path : Path) :
    Option Described.Answer → Exec σ (Option Datum)
  | none => pure none
  | some (.leaf d) => pure (some d)
  | some (.part d) => some <$> part d path
  | some (.leaves ds) =>
    (some ∘ Datum.list) <$> Complete.elements false path (fun _ d => pure (some d)) 0 ds
  | some (.parts ds) =>
    (some ∘ Datum.list) <$>
      Complete.elements false path
        (fun here d => Exec.relocated here (some <$> part d here)) 0 ds

-- The field is called by the name that it has in the response.
def cannotQuery (type : String) (head : FieldHead) : ResponseError :=
  { message := "Cannot query field \"" ++ head.key ++ "\" on type \"" ++ type ++ "\"."
    locations := [head.loc] }

-- A question that no describing type has is answered by null.
def question (x : Execution σ) (d : Described) (path : Path) (head : FieldHead)
    (part : Described → Path → Exec σ Datum) : Exec σ (Option Datum) :=
  let c := x.schema.catalog
  let here := path ++ [.field head.key]
  match (c.type? d.typeName).bind fun t => c.field? t head.name with
  | none => throw (cannotQuery d.typeName head)
  | some f =>
    Exec.guard here f.type.nullable do
      match Description.field? d.typeName head.name with
      | none => pure none
      | some known => do
        let _ ← x.fittingArguments head known.arguments
        Exec.catching known.type.nullable (answered part here (d.answer c head.name))

mutual

def inquireOne (x : Execution σ) (d : Described) (path : Path) :
    Node → Exec σ (List (String × Datum))
  | .group condition _ children =>
    if applies d.typeName condition then x.inquire d path children else pure []
  | .field head children =>
    if head.name = "__typename" then pure [(head.key, .string d.typeName)]
    else do
      let found ← x.question d path head fun part here =>
        Datum.ofResults <$> x.inquire part here children
      pure [(head.key, found.getD .null)]

def inquire (x : Execution σ) (d : Described) (path : Path) :
    List Node → Exec σ (List (String × Datum))
  | [] => pure []
  | n :: rest => do
    let results ← x.inquireOne d path n
    let more ← x.inquire d path rest
    pure (results ++ more)

end

-- A field that leads to the description has no guard of its own, and positions below it are counted
-- from where it stands.
def enterDescription (x : Execution σ) (path : Path) (head : FieldHead) (f : FieldDef)
    (children : List Node) : Exec σ (Option Datum) := do
  let arguments ← x.fittingArguments head f.arguments
  match Described.enter x.schema.catalog arguments f.name with
  | none => pure none
  | some d => Exec.catching f.type.nullable ((some ∘ Datum.ofResults) <$> x.inquire d path children)

end Execution

end RowGraph
