import RowGraph.Execution.Outcome
import RowGraph.Response
import RowGraph.Store.Operation
/-!
The state of one request, and null propagation. Every field and every list element is guarded: an
error that comes out of it is given its path, unless it has one, and stops there if the position
may be null; otherwise it goes on outwards. Elements of a list can be marked as null, with or
without an error, before they are reached; a marked element is not resolved.

The description of the schema has positions of its own that stop errors; these come before all
absorbed ones in a response.
-/

namespace RowGraph

structure HookCall where
  type : String
  field : String
  label : String
deriving DecidableEq, Repr

structure Run (σ : Type) where
  store : σ
  marks : List (Path × Option ResponseError) := []
  absorbed : List ResponseError := []
  -- Errors that have been stopped inside the description of the schema.
  caught : List ResponseError := []
  calls : List HookCall := []

abbrev Exec (σ : Type) := ExceptT ResponseError (StateM (Run σ))

-- The same with errors that have no position yet.
abbrev Resolving (σ : Type) := ExceptT GraphError (StateM (Run σ))

namespace Exec

variable {σ : Type}

-- A mark for a position replaces an earlier one.
def setMark (path : Path) (e : Option ResponseError) (r : Run σ) : Run σ :=
  { r with marks := (path, e) :: r.marks.filter fun m => m.1 ≠ path }

def mark (path : Path) (e : Option ResponseError) : StateM (Run σ) Unit := modify (setMark path e)

-- Reading a mark removes it.
def takeMark (path : Path) : StateM (Run σ) (Option (Option ResponseError)) := fun r =>
  match r.marks.find? fun m => m.1 = path with
  | some (_, e) => (some e, { r with marks := r.marks.filter fun m => m.1 ≠ path })
  | none => (none, r)

def located (path : Path) (e : ResponseError) : ResponseError :=
  if e.path.isEmpty then { e with path } else e

-- What a position makes of an error.
def absorb (path : Path) (nullable : Bool) (e : ResponseError) : Exec σ (Option Datum) :=
  if nullable then do
    modify fun r => { r with absorbed := r.absorbed ++ [located path e] }
    pure none
  else throw (located path e)

def guard (path : Path) (nullable : Bool) (body : Exec σ (Option Datum)) :
    Exec σ (Option Datum) := fun r =>
  match body r with
  | (.ok d, r') => (.ok d, r')
  | (.error e, r') => absorb path nullable e r'

-- Stops an error that has not been absorbed, without giving it a path.
def catching (nullable : Bool) (body : Exec σ (Option Datum)) : Exec σ (Option Datum) := fun r =>
  match body r with
  | (.ok d, r') => (.ok d, r')
  | (.error e, r') =>
    if nullable then (.ok none, { r' with caught := r'.caught ++ [e] }) else (.error e, r')

-- Errors from inside get this path, whatever path they had.
def relocated (path : Path) (body : Exec σ α) : Exec σ α :=
  ExceptT.adapt (fun e : ResponseError => { e with path }) body

def missingElement : ResponseError := { message := "a non-null list element has no value" }

-- An element looks for a mark before it does anything else.
def element (path : Path) (nullable : Bool) (body : Exec σ (Option Datum)) :
    Exec σ (Option Datum) := do
  match ← (takeMark path : StateM (Run σ) _) with
  | some (some e) => absorb path nullable e
  | some none => if nullable then pure none else absorb path false missingElement
  | none => guard path nullable body

end Exec

-- How a computation that may fail and has a state runs from one state.
section

variable {σ ε α β : Type}

theorem bind_apply (x : ExceptT ε (StateM σ) α) (f : α → ExceptT ε (StateM σ) β) (s : σ) :
    (x >>= f) s = match x s with
      | (.ok a, s') => f a s'
      | (.error e, s') => (.error e, s') := by
  change (match x s with | (a, s') => ExceptT.bindCont f a s') = _
  rcases x s with ⟨_ | _, _⟩ <;> rfl

theorem map_apply (f : α → β) (x : ExceptT ε (StateM σ) α) (s : σ) :
    (f <$> x) s = ((x s).1.map f, (x s).2) := by
  rw [map_eq_pure_bind, bind_apply]
  rcases x s with ⟨_ | _, _⟩ <;> rfl

theorem lift_apply (x : StateM σ α) (s : σ) :
    (liftM x : ExceptT ε (StateM σ) α) s = (.ok (x s).1, (x s).2) := rfl

theorem adapt_apply {ε' : Type} (f : ε → ε') (x : ExceptT ε (StateM σ) α) (s : σ) :
    ExceptT.adapt f x s = ((x s).1.mapError f, (x s).2) := rfl

end

end RowGraph
