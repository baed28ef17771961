import RowGraph.Language.TypeExpr
import RowGraph.Schema.Problem
/-!
Shapes of output types: what a field of that type is resolved to. Lists of leaf values, however
deeply nested, are scalars; one list of references is a reference list; lists of lists of
references have no shape.
-/

namespace RowGraph

-- What a name in a type expression stands for.
inductive NamedKind where
  | table
  | entry
  | leaf
  | input
  | abstract
deriving DecidableEq, Repr

structure TypeLookup where
  kindOf : String → Option NamedKind
  -- The table whose rows an entry type wraps.
  entryTable : String → Option String

inductive ShapeKind where
  | scalar
  | reference (table : String)
  | referenceList (table : String) (nonNullItems : Bool)
deriving DecidableEq, Repr

structure FieldShape where
  kind : ShapeKind
  nonNull : Bool
  -- Whether the rows are shown inside an entry type.
  entry : Bool
deriving DecidableEq, Repr

namespace FieldShape

def table? (s : FieldShape) : Option String :=
  match s.kind with
  | .scalar => none
  | .reference table => some table
  | .referenceList table _ => some table

def isReference (s : FieldShape) : Bool := s.table?.isSome

def shownBool (b : Bool) : String := if b then "true" else "false"

def shownKind : ShapeKind → String
  | .scalar => "Scalar"
  | .reference table => "Reference(" ++ Text.shown table ++ ")"
  | .referenceList table items =>
    "ReferenceList \x7b table: " ++ Text.shown table ++ ", non_null_items: " ++ shownBool items ++
      " \x7d"

def shown (s : FieldShape) : String :=
  "FieldShape \x7b kind: " ++ shownKind s.kind ++ ", non_null: " ++ shownBool s.nonNull ++
    ", entry: " ++ shownBool s.entry ++ " \x7d"

-- The shape of a name that stands at the bottom of a type expression.
def ofName (lookup : TypeLookup) (name : String) (nonNull : Bool) :
    Except SchemaProblem FieldShape :=
  match lookup.kindOf name with
  | some .table => .ok ⟨.reference name, nonNull, false⟩
  | some .entry =>
    match lookup.entryTable name with
    | some table => .ok ⟨.reference table, nonNull, true⟩
    | none => .error (.entryWithoutTable name)
  | some .leaf => .ok ⟨.scalar, nonNull, false⟩
  | some .input => .error (.inputAsOutput name)
  | some .abstract => .error (.abstractType name)
  | none => .error (.unknownType name)

-- A list around an item of the given shape.
def listOf (item : FieldShape) (nonNull : Bool) : Except SchemaProblem FieldShape :=
  match item.kind with
  | .scalar => .ok ⟨.scalar, nonNull, false⟩
  | .reference table => .ok ⟨.referenceList table item.nonNull, nonNull, item.entry⟩
  | .referenceList table _ => .error (.nestedReferences table)

def classify (lookup : TypeLookup) : TypeExpr → Except SchemaProblem FieldShape
  | .named name nonNull => ofName lookup name nonNull
  | .list item nonNull => do listOf (← classify lookup item) nonNull

end FieldShape

end RowGraph
