import RowGraph.Language.Literal
import RowGraph.Language.OperationKind
/-!
Request documents: operations and fragments, with the places that messages point to, and their
grammar. A document holds one operation without a name, or operations of distinct names; fragments
have distinct names too.
-/

namespace RowGraph

structure Argument where
  name : String
  value : Literal
  loc : Location
  valueLoc : Location

structure DirectiveCall where
  name : String
  arguments : List Argument := []
  loc : Location

-- The response shows a field under its label, which is its name unless another was given.
structure FieldHead where
  label : Option String
  name : String
  arguments : List Argument
  directives : List DirectiveCall
  loc : Location

def FieldHead.key (h : FieldHead) : String := h.label.getD h.name

-- A selection set is given by the place of its brace and its selections. A field without one has
-- no selections.
inductive Selection where
  | field (head : FieldHead) (brace : Location) (selections : List Selection)
  | spread (fragment : String) (directives : List DirectiveCall) (loc : Location)
  | inline (condition : Option String) (directives : List DirectiveCall) (loc : Location)
      (brace : Location) (selections : List Selection)

instance : Inhabited Selection := ⟨.spread "" [] .start⟩

namespace Selection

mutual

-- How many selection sets stand inside one another, at most, in a selection.
def levels : Selection → Nat
  | .field _ _ selections => if selections.isEmpty then 0 else 1 + levelsAll selections
  | .spread _ _ _ => 0
  | .inline _ _ _ _ selections => 1 + levelsAll selections

def levelsAll : List Selection → Nat
  | [] => 0
  | s :: rest => max (levels s) (levelsAll rest)

end

end Selection

structure VariableDef where
  name : String
  type : TypeExpr
  fallback : Option Datum
  directives : List DirectiveCall
  loc : Location

structure OperationDef where
  kind : OperationKind
  name : Option String
  variableDefs : List VariableDef
  directives : List DirectiveCall
  brace : Location
  selections : List Selection
  loc : Location

structure FragmentDef where
  name : String
  condition : String
  directives : List DirectiveCall
  brace : Location
  selections : List Selection
  loc : Location

structure Query where
  operations : List OperationDef
  fragments : List FragmentDef

def Query.fragment? (q : Query) (name : String) : Option FragmentDef :=
  q.fragments.find? fun f => f.name = name

namespace Query

open Grammar

def argument : Grammar Argument := do
  let loc ← here
  let name ← Grammar.name
  symbol ':'
  let valueLoc ← here
  let value ← Literal.grammar
  pure { name, value, loc, valueLoc }

def directiveCall : Grammar DirectiveCall := do
  let loc ← here
  symbol '@'
  let name ← Grammar.name
  let arguments ← block '(' ')' argument
  pure { name, arguments, loc }

def fieldHead : Grammar FieldHead := do
  let loc ← here
  let label ← opt do
    let label ← Grammar.name
    symbol ':'
    pure label
  let name ← Grammar.name
  let arguments ← block '(' ')' argument
  let directives ← many directiveCall
  pure { label, name, arguments, directives, loc }

-- Blanks but no comments may stand between the word and the name, and one blank has to.
def takeCondition? (cs : List Char) : Option (String × List Char) :=
  match cs with
  | 'o' :: 'n' :: c :: rest =>
    if Cursor.isBlank c then takeName? (rest.dropWhile Cursor.isBlank) else none
  | _ => none

def condition : Grammar String := lexeme takeCondition?

-- The name may be anything unless it reads as a condition.
def spread : Grammar Selection := do
  let loc ← here
  literal "..."
  absent condition
  let name ← Grammar.name
  let directives ← many directiveCall
  pure (.spread name directives loc)

mutual

-- At least one selection between braces.
def selectionSet : Nat → Grammar (Location × List Selection)
  | 0 => failure
  | fuel + 1 => do
    let loc ← here
    let selections ← between '\x7b' '\x7d' (many1 (firstOf [field fuel, inline fuel, spread]))
    pure (loc, selections)

def field : Nat → Grammar Selection
  | 0 => failure
  | fuel + 1 => do
    let head ← fieldHead
    match ← opt (selectionSet fuel) with
    | some (brace, selections) => pure (.field head brace selections)
    | none => pure (.field head head.loc [])

def inline : Nat → Grammar Selection
  | 0 => failure
  | fuel + 1 => do
    let loc ← here
    literal "..."
    let on ← opt condition
    let directives ← many directiveCall
    let (brace, selections) ← selectionSet fuel
    pure (.inline on directives loc brace selections)

end

-- Each selection set takes two steps and at least two characters.
def selections : Grammar (Location × List Selection) := fun c =>
  selectionSet (c.rest.length + 1) c

def variableDef : Grammar VariableDef := do
  let loc ← here
  symbol '$'
  let name ← Grammar.name
  symbol ':'
  let type ← typeExpr
  let directives ← many directiveCall
  let fallback ← opt do
    symbol '='
    Literal.constantGrammar
  pure { name, type, fallback, directives, loc }

def namedOperation : Grammar OperationDef := do
  let loc ← here
  let kind ← OperationKind.grammar
  let name ← opt Grammar.name
  let defs ← opt (between '(' ')' (many variableDef))
  let directives ← many directiveCall
  let (brace, selections) ← selections
  pure { kind, name, variableDefs := defs.getD [], directives, brace, selections, loc }

-- A selection set alone is a query.
def bareOperation : Grammar OperationDef := do
  let loc ← here
  let (brace, selections) ← selections
  pure { kind := .query, name := none, variableDefs := [], directives := [], brace, selections, loc }

def fragmentDef : Grammar FragmentDef := do
  let loc ← here
  literal "fragment"
  let name ← Grammar.name
  let condition ← condition
  let directives ← many directiveCall
  let (brace, selections) ← selections
  pure { name, condition, directives, brace, selections, loc }

inductive Part where
  | operation (o : OperationDef)
  | fragment (f : FragmentDef)

def part : Grammar Part :=
  firstOf [.operation <$> namedOperation, .operation <$> bareOperation, .fragment <$> fragmentDef]

def ofParts (parts : List Part) : Query where
  operations := parts.filterMap fun
    | .operation o => some o
    | .fragment _ => none
  fragments := parts.filterMap fun
    | .operation _ => none
    | .fragment f => some f

-- Either a single operation without a name or any number with distinct names.
def wellNamed (q : Query) : Bool :=
  let names := q.operations.map (·.name)
  !names.isEmpty && (names.length = 1 || names.all Option.isSome) && decide names.Nodup &&
    decide (q.fragments.map (·.name)).Nodup

-- Selection sets that stand deeper than this inside others are not read.
def maxNesting : Nat := 64

def nesting (q : Query) : List Nat :=
  (q.operations.map fun o => Selection.levelsAll o.selections) ++
    q.fragments.map fun f => Selection.levelsAll f.selections

-- A malformed text, and a text whose definitions clash, is no request.
def read? (source : String) : Option Query := do
  let q := ofParts (← run (many1 part) source)
  if q.wellNamed && q.nesting.all (· ≤ maxNesting) then some q else none

end Query

end RowGraph
