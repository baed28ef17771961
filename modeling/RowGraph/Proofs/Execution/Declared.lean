import RowGraph.Execution.Selections
import RowGraph.Proofs.Execution.Arguments
import RowGraph.Proofs.Execution.Resolve
/-!
What becomes of a declared field. Its hooks are called in order up to the first that refuses; if one
does, the field is over with its message and nothing else has happened, and otherwise its resolver
has its turn. Errors from either have no position yet.
-/

namespace RowGraph

variable {σ : Type}

namespace Hook

def refusalAmong (arguments : Arguments) (hooks : List Hook) : Option String :=
  hooks.findSome? fun h => h.refusal? arguments

-- The hooks that are called: those up to the first that refuses.
def called (arguments : Arguments) : List Hook → List Hook
  | [] => []
  | h :: rest => h :: if (h.refusal? arguments).isSome then [] else called arguments rest

def calls (type field : String) (arguments : Arguments) (hooks : List Hook) : List HookCall :=
  (called arguments hooks).map fun h => ⟨type, field, h.label⟩

end Hook

-- The message of the first hook that refuses a field.
def Schema.refusal? (s : Schema) (type field : String) (arguments : Arguments) : Option String :=
  ((FieldMap.get? s.hooks type field).getD []).findSome? fun h => h.refusal? arguments

-- The operations that a resolver sends: only mutations send one.
def Resolver.sends : Resolver → Arguments → List Operation
  | .mutation plan, arguments => Commit.sends plan arguments
  | _, _ => []

def Schema.sends (s : Schema) (type field : String) (arguments : Arguments) : List Operation :=
  match s.refusal? type field arguments, FieldMap.get? s.resolvers type field with
  | none, some resolver => resolver.sends arguments
  | _, _ => []

namespace Execution

-- Hooks only leave a note of having been called.
theorem runHooks_called (type field : String) (loc : Location) (arguments : Arguments)
    (hooks : List Hook) (r : Run σ) :
    runHooks type field loc arguments hooks r =
      (match Hook.refusalAmong arguments hooks with
        | some message => .error { message, locations := [loc] }
        | none => .ok (),
      { r with calls := r.calls ++ Hook.calls type field arguments hooks }) := by
  induction hooks generalizing r with
  | nil =>
    rw [show Hook.calls type field arguments [] = [] from rfl, List.append_nil]
    rfl
  | cons h rest ih =>
    unfold Hook.calls Hook.called Hook.refusalAmong
    cases refused : h.refusal? arguments with
    | some message =>
      rw [List.findSome?_cons_of_isSome (by simp [refused]), refused]
      simp only [runHooks, refused]
      rfl
    | none =>
      have later := ih { r with calls := r.calls ++ [⟨type, field, h.label⟩] }
      rw [List.findSome?_cons_of_isNone (by simp [refused])]
      simp only [runHooks, refused]
      simp only [List.append_assoc] at later
      exact later

-- What a field comes to that has these hooks.
def guarded (x : Execution σ) (hooks : List Hook) (type field : String) (here : Path)
    (loc : Location) (arguments : Arguments) (parent : Outcome) (r : Run σ) :
    Except ResponseError (Option Outcome) × Run σ :=
  let called : Run σ := { r with calls := r.calls ++ Hook.calls type field arguments hooks }
  match Hook.refusalAmong arguments hooks, FieldMap.get? x.schema.resolvers type field with
  | some message, _ => (.error { message, locations := [loc] }, called)
  | none, some resolver =>
    let ran := x.resolver here loc arguments parent resolver called
    (ran.1.mapError (·.raisedAt loc), ran.2)
  | none, none => (.ok none, called)

theorem declaredField_guarded (x : Execution σ) (type field : String) (here : Path) (loc : Location)
    (arguments : Arguments) (parent : Outcome) (r : Run σ) :
    x.declaredField type field here loc arguments parent r =
      x.guarded ((FieldMap.get? x.schema.hooks type field).getD []) type field here loc arguments
        parent r := by
  unfold declaredField guarded
  rw [bind_apply, runHooks_called]
  cases Hook.refusalAmong arguments ((FieldMap.get? x.schema.hooks type field).getD []) with
  | some message => rfl
  | none => cases FieldMap.get? x.schema.resolvers type field <;> rfl

theorem resolver_resolved (x : Execution σ) (here : Path) (loc : Location) (arguments : Arguments)
    (parent : Outcome) (resolver : Resolver) (r : Run σ) :
    Resolved x.backend here resolver (resolver.sends arguments) r
      (x.resolver here loc arguments parent resolver r).1
      (x.resolver here loc arguments parent resolver r).2 := by
  have anything {α : Type} (y : Except GraphError α) :
      Gives x.backend (liftM y : Resolving σ α) fun _ _ _ => True :=
    Gives.lift fun _ _ _ => trivial
  cases resolver with
  | root argument shape => exact Resolve.root_resolves argument shape loc arguments r
  | column name => exact Resolve.shapeless rfl (anything _) r
  | reference column shape => exact Resolve.reference_resolves column shape loc parent r
  | value => exact Resolve.shapeless rfl (anything _) r
  | mutation plan => exact Commit.mutation_resolved x.backend here plan arguments r

end Execution

inductive Declared (x : Execution σ) (type field : String) (here : Path) (loc : Location)
    (arguments : Arguments) (parent : Outcome) (r : Run σ) :
    Except ResponseError (Option Outcome) × Run σ → Prop where
  | refused {r' : Run σ} {message : String} {e : ResponseError} :
      x.schema.refusal? type field arguments = some message → Steady x.backend r r' →
      e.Bare → Declared x type field here loc arguments parent r (.error e, r')
  | unserved {r' : Run σ} : FieldMap.get? x.schema.resolvers type field = none →
      Steady x.backend r r' → Declared x type field here loc arguments parent r (.ok none, r')
  | resolved {r' r'' : Run σ} {resolver : Resolver} {result : Except GraphError (Option Outcome)} :
      x.schema.refusal? type field arguments = none →
      FieldMap.get? x.schema.resolvers type field = some resolver → Steady x.backend r r' →
      x.resolver here loc arguments parent resolver r' = (result, r'') →
      Resolved x.backend here resolver (resolver.sends arguments) r' result r'' →
      Declared x type field here loc arguments parent r (result.mapError (·.raisedAt loc), r'')

theorem Execution.declaredField_declared (x : Execution σ) (type field : String) (here : Path)
    (loc : Location) (arguments : Arguments) (parent : Outcome) (r : Run σ) :
    Declared x type field here loc arguments parent r
      (x.declaredField type field here loc arguments parent r) := by
  let hooks := (FieldMap.get? x.schema.hooks type field).getD []
  have steady : Steady x.backend r
      { r with calls := r.calls ++ Hook.calls type field arguments hooks } :=
    ⟨.nothing, rfl, rfl, rfl⟩
  rw [x.declaredField_guarded]
  unfold guarded
  dsimp only
  cases refusal : Hook.refusalAmong arguments hooks with
  | some message => exact .refused refusal steady ⟨rfl, rfl⟩
  | none =>
    cases known : FieldMap.get? x.schema.resolvers type field with
    | none => exact .unserved known steady
    | some resolver =>
      exact .resolved refusal known steady rfl
        (x.resolver_resolved here loc arguments parent resolver _)

theorem Declared.sends {x : Execution σ} {type field : String} {here : Path} {loc : Location}
    {arguments : Arguments} {parent : Outcome} {r : Run σ}
    {ran : Except ResponseError (Option Outcome) × Run σ}
    (declared : Declared x type field here loc arguments parent r ran) :
    Sends x.backend r.store (x.schema.sends type field arguments) ran.2.store := by
  unfold Schema.sends
  cases declared with
  | refused refusal steady _ =>
    rw [refusal]
    exact steady.store
  | unserved known steady =>
    rw [known]
    cases x.schema.refusal? type field arguments <;> exact steady.store
  | resolved free known steady _ resolved =>
    rw [free, known]
    exact steady.store.trans resolved.store

end RowGraph
