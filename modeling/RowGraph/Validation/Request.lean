import RowGraph.Validation.Walk
/-!
The rules that look at a request as a whole, and the verdict on it: variables are defined and used,
and fragments are used and do not contain themselves.
-/

namespace RowGraph.Validation

structure FragmentFindings where
  fragment : FragmentDef
  findings : Findings

structure OperationFindings where
  operation : OperationDef
  configured : Bool
  findings : Findings

structure Survey where
  fragments : List FragmentFindings
  operations : List OperationFindings

def survey (ctx : Context) : Survey where
  fragments := ctx.query.fragments.map fun f => ⟨f, fragmentFindings ctx f⟩
  operations := ctx.query.operations.map fun o =>
    ⟨o, (ctx.catalog.root? o.kind).isSome, operationFindings ctx o⟩

namespace Survey

def fragment? (s : Survey) (name : String) : Option FragmentFindings :=
  s.fragments.find? fun f => f.fragment.name = name

def spreadsOf (s : Survey) (name : String) : List Spread :=
  ((s.fragment? name).map (·.findings.spreads)).getD []

-- Fragments in the order in which they are first met, each followed by what it spreads.
def reachFrom (s : Survey) (seen : List String) : Nat → List Spread → List String
  | 0, _ => seen
  | _ + 1, [] => seen
  | fuel + 1, spread :: pending =>
    if seen.contains spread.name then reachFrom s seen fuel pending
    else match s.fragment? spread.name with
      | some f => reachFrom s (seen ++ [spread.name]) fuel (f.findings.spreads ++ pending)
      | none => reachFrom s seen fuel pending

-- Every step takes a spread off, and each fragment puts its own spreads on once.
def reach (s : Survey) (spreads : List Spread) : List String :=
  let steps := spreads.length + (s.fragments.flatMap fun f => f.findings.spreads).length + 1
  reachFrom s [] steps spreads

-- The uses of variables in an operation, and in each fragment that it reaches.
def uses (s : Survey) (o : OperationFindings) : List (List VariableUse) :=
  o.findings.uses :: (s.reach o.findings.spreads).map fun name =>
    ((s.fragment? name).map (·.findings.uses)).getD []

def byOperation (o : OperationDef) : String :=
  match o.name with
  | some name => " by operation \"" ++ name ++ "\""
  | none => ""

def unusedVariables (s : Survey) (o : OperationFindings) : List ResponseError :=
  let uses := (s.uses o).flatten
  if o.configured then
    (o.operation.variableDefs.filter fun v => !uses.any fun u => u.name = v.name).map fun v =>
      report [v.loc] ("Variable \"$" ++ v.name ++ "\" is not used" ++ byOperation o.operation)
  else []

def unusedFragments (s : Survey) : List ResponseError :=
  let reached := s.operations.flatMap fun o => s.reach o.findings.spreads
  (s.fragments.filter fun f => !reached.contains f.fragment.name).map fun f =>
    report [f.fragment.loc] ("Fragment \"" ++ f.fragment.name ++ "\" is never used")

-- The operation and every fragment report a variable once, at its last use there.
def undefinedVariables (s : Survey) (o : OperationFindings) : List ResponseError :=
  let undefined := (s.uses o).flatMap fun uses =>
    (distinctNamed VariableUse.name uses).filter fun u =>
      !o.operation.variableDefs.any fun v => v.name = u.name
  undefined.map fun u =>
    report ((o.operation.name.map fun _ => o.operation.loc).toList ++ [u.loc])
      ("Variable \"$" ++ u.name ++ "\" is not defined" ++ byOperation o.operation)

-- A search for fragments that contain themselves: the fragments entered so far, and the spreads
-- that close or open a cycle, under the name of the repeated fragment.
structure CycleSearch where
  entered : List String := []
  found : List Spread := []

-- The way to a fragment holds, for each fragment around it, its name and the spread that leaves it.
-- A cycle is reported where it leaves the fragment that it comes back to.
def followSpreads (enter : List Spread → String → CycleSearch → CycleSearch) (way : List Spread)
    (name : String) : List Spread → CycleSearch → CycleSearch
  | [], c => c
  | spread :: rest, c =>
    let way' := way ++ [⟨name, spread.loc⟩]
    let c := match way'.find? fun left => left.name = spread.name with
      | some left => { c with found := c.found ++ [left] }
      | none => if c.entered.contains spread.name then c else enter way' spread.name c
    followSpreads enter way name rest c

-- Every step down enters another fragment, so their number bounds the depth.
def enterFragment (s : Survey) : Nat → List Spread → String → CycleSearch → CycleSearch
  | 0, _, _, c => c
  | fuel + 1, way, name, c =>
    followSpreads (enterFragment s fuel) way name (s.spreadsOf name)
      { c with entered := name :: c.entered }

def cycles (s : Survey) : List ResponseError :=
  let names := s.fragments.map fun f => f.fragment.name
  let search := names.foldl (fun c name =>
    if c.entered.contains name then c else s.enterFragment (names.length + 1) [] name c) {}
  search.found.map fun spread =>
    report [spread.loc] ("Cannot spread fragment \"" ++ spread.name ++ "\"")

-- What the parts have found, part by part, then what only the whole shows.
def errors (s : Survey) : List ResponseError :=
  s.fragments.flatMap (fun f => f.findings.errors) ++
    s.operations.flatMap (fun o => o.findings.errors) ++
    s.operations.flatMap s.unusedVariables ++
    s.unusedFragments ++ s.operations.flatMap s.undefinedVariables ++ s.cycles

end Survey

-- An operation without a root type is met a second time when the request is measured.
def errors (ctx : Context) : List ResponseError :=
  let s := survey ctx
  s.errors ++ (s.operations.filter fun o => !o.configured).map fun o => notConfigured o.operation

end RowGraph.Validation
