import RowGraph.Language.Query
/-!
Selection trees: the selections of an operation with every fragment written out in its place. A
tree is finite because unfolding stops at a fixed depth, so all that happens to an operation
afterwards can follow the tree.
-/

namespace RowGraph

inductive Node where
  | field (head : FieldHead) (children : List Node)
  -- Selections that only apply to objects of the given type, if one is given.
  | group (on : Option String) (directives : List DirectiveCall) (children : List Node)

instance : Inhabited Node := ⟨.group none [] []⟩

namespace Node

-- Nested selections, the selections of inline fragments and those of spread fragments all count
-- as one level.
def maxLevels : Nat := 32

-- Selections inside go through `nest`. An unknown fragment adds nothing.
def ofSelection (q : Query) (nest : Location → List Selection → Except Location (List Node)) :
    Selection → Except Location Node
  | .field head brace selections =>
    if selections.isEmpty then .ok (.field head []) else (nest brace selections).map (.field head)
  | .spread name directives _ =>
    match q.fragment? name with
    | some f => (nest f.brace f.selections).map (.group (some f.condition) directives)
    | none => .ok (.group none directives [])
  | .inline condition directives _ brace selections =>
    (nest brace selections).map (.group condition directives)

-- With no level left the selection set itself is the error.
def unfold (q : Query) : (levels : Nat) → Location → List Selection →
    Except Location (List Node)
  | 0, brace, _ => .error brace
  | levels + 1, _, selections => selections.mapM (ofSelection q (unfold q levels))

def ofOperation (q : Query) (o : OperationDef) : Except Location (List Node) :=
  unfold q (maxLevels + 1) o.brace o.selections

mutual

-- Every field costs one, except the name of the type.
def cost : Node → Nat
  | .field head children => if head.name = "__typename" then 0 else 1 + costAll children
  | .group _ _ children => costAll children

def costAll : List Node → Nat
  | [] => 0
  | n :: rest => cost n + costAll rest

end

mutual

-- The number of fields from the root to the deepest field.
def depth : Node → Nat
  | .field head children => if head.name = "__typename" then 0 else 1 + depthAll children
  | .group _ _ children => depthAll children

def depthAll : List Node → Nat
  | [] => 0
  | n :: rest => max (depth n) (depthAll rest)

end

-- The condition of a directive. A variable counts only if the request gave it a value, and
-- everything but a truth value counts as false.
def condition? (values : List (String × Datum)) (d : DirectiveCall) : Option Bool :=
  (d.arguments.find? fun a => a.name = "if").map fun a =>
    let value := a.value.eval fun name =>
      match Members.get? name values with
      | some v => .ok v
      | none => .error ()
    match value with
    | .ok (.bool b) => b
    | _ => false

def isSkipped (values : List (String × Datum)) (directives : List DirectiveCall) : Bool :=
  directives.any fun d =>
    if d.name = "skip" then condition? values d = some true
    else if d.name = "include" then condition? values d = some false
    else false

def directives : Node → List DirectiveCall
  | .field head _ => head.directives
  | .group _ directives _ => directives

mutual

-- What is left after the skipped selections have been taken out, at every level.
def prune (values : List (String × Datum)) : Node → Node
  | .field head children => .field head (pruneAll values children)
  | .group on directives children => .group on directives (pruneAll values children)

def pruneAll (values : List (String × Datum)) : List Node → List Node
  | [] => []
  | n :: rest =>
    if isSkipped values n.directives then pruneAll values rest
    else prune values n :: pruneAll values rest

end

end Node

end RowGraph
