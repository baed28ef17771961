import RowGraph.Validation.Findings
/-!
Fields of one selection set that are shown under the same key must be the same field with the same
arguments. Fragments are looked into, each at most once; fields under different type conditions
are not compared.
-/

namespace RowGraph.Validation

structure Gathered where
  fields : List (Option String × FieldHead) := []
  visited : List String := []

mutual

-- The fields of a selection under a type condition; `spread` says what a fragment adds.
def gatherOne (spread : String → Gathered → Gathered) (on : Option String) (g : Gathered) :
    Selection → Gathered
  | .field head _ _ => { g with fields := g.fields ++ [(on, head)] }
  | .spread name _ _ => spread name g
  | .inline condition _ _ _ selections => gatherAll spread condition g selections

def gatherAll (spread : String → Gathered → Gathered) (on : Option String) (g : Gathered) :
    List Selection → Gathered
  | [] => g
  | s :: rest => gatherAll spread on (gatherOne spread on g s) rest

end

-- Each fragment is entered once, so the number of fragments bounds the depth.
def gatherSpread (q : Query) : Nat → String → Gathered → Gathered
  | 0, _, g => g
  | fuel + 1, name, g =>
    match q.fragment? name with
    | some f =>
      if g.visited.contains name then g
      else gatherAll (gatherSpread q fuel) (some f.condition)
        { g with visited := name :: g.visited } f.selections
    | none => g

def gather (q : Query) (selections : List Selection) : List (Option String × FieldHead) :=
  (gatherAll (gatherSpread q (q.fragments.length + 1)) none {} selections).fields

def conflict (key reason : String) (a b : FieldHead) : ResponseError :=
  report [a.loc, b.loc] ("Fields \"" ++ key ++ "\" conflict because " ++ reason ++
    ". Use different aliases on the fields to fetch both if this was intentional.")

-- A conflict over one argument goes by the name of the argument.
def conflicts (a b : FieldHead) : List ResponseError :=
  let differing := "they have differing arguments"
  (if a.name = b.name then []
    else [conflict a.key ("\"" ++ a.name ++ "\" and \"" ++ b.name ++ "\" are different fields") a b]) ++
    (if a.arguments.length = b.arguments.length then [] else [conflict a.key differing a b]) ++
    a.arguments.filterMap fun x =>
      match b.arguments.find? fun y => y.name = x.name with
      | some y => if x.value == y.value then none else some (conflict x.name differing a b)
      | none => some (conflict x.name differing a b)

-- Each field is compared with the first one under its key.
def overlapFrom (before : List (Option String × FieldHead)) :
    List (Option String × FieldHead) → List ResponseError
  | [] => []
  | f :: rest =>
    match before.find? fun e => e.1 = f.1 && e.2.key = f.2.key with
    | some first => conflicts first.2 f.2 ++ overlapFrom before rest
    | none => overlapFrom (before ++ [f]) rest

def overlapErrors (q : Query) (selections : List Selection) : List ResponseError :=
  overlapFrom [] (gather q selections)

end RowGraph.Validation
