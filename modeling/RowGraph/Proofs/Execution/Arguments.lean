import RowGraph.Execution.Arguments
/-!
Reading the arguments of a field changes nothing, and it fails only at a variable without a value,
with an error that has no position and no code.
-/

namespace RowGraph

-- An error about what a request says: it belongs to no position of the response and has no code.
structure ResponseError.Bare (e : ResponseError) : Prop where
  path : e.path = []
  code : e.code = none

namespace Literal

mutual

theorem eval_error {ε : Type} {lookup : String → Except ε Datum} {e : ε} : ∀ {l : Literal},
    eval lookup l = .error e → ∃ name, lookup name = .error e
  | .var name, failed => ⟨name, failed⟩
  | .null, failed => by cases failed
  | .bool _, failed => by cases failed
  | .number _, failed => by cases failed
  | .string _, failed => by cases failed
  | .enum _, failed => by cases failed
  | .list items, failed => by
    rw [eval] at failed
    cases inside : evalItems lookup items with
    | ok ds => rw [inside] at failed; cases failed
    | error e' =>
      rw [inside] at failed
      obtain rfl := Except.error.inj failed
      exact evalItems_error inside
  | .object members, failed => by
    rw [eval] at failed
    cases inside : evalMembers lookup members with
    | ok ds => rw [inside] at failed; cases failed
    | error e' =>
      rw [inside] at failed
      obtain rfl := Except.error.inj failed
      exact evalMembers_error inside

theorem evalItems_error {ε : Type} {lookup : String → Except ε Datum} {e : ε} :
    ∀ {items : List Literal}, evalItems lookup items = .error e → ∃ name, lookup name = .error e
  | [], failed => by cases failed
  | l :: rest, failed => by
    rw [evalItems] at failed
    cases first : eval lookup l with
    | error e' =>
      rw [first] at failed
      obtain rfl := Except.error.inj failed
      exact eval_error first
    | ok d =>
      rw [first] at failed
      cases later : evalItems lookup rest with
      | error e' =>
        rw [later] at failed
        obtain rfl := Except.error.inj failed
        exact evalItems_error later
      | ok ds => rw [later] at failed; cases failed

theorem evalMembers_error {ε : Type} {lookup : String → Except ε Datum} {e : ε} :
    ∀ {members : List (String × Literal)}, evalMembers lookup members = .error e →
      ∃ name, lookup name = .error e
  | [], failed => by cases failed
  | (_, l) :: rest, failed => by
    rw [evalMembers] at failed
    cases first : eval lookup l with
    | error e' =>
      rw [first] at failed
      obtain rfl := Except.error.inj failed
      exact eval_error first
    | ok d =>
      rw [first] at failed
      cases later : evalMembers lookup rest with
      | error e' =>
        rw [later] at failed
        obtain rfl := Except.error.inj failed
        exact evalMembers_error later
      | ok ds => rw [later] at failed; cases failed

end

end Literal

namespace Execution

variable {σ : Type}

theorem variableValue_error {x : Execution σ} {loc : Location} {name : String} {e : ResponseError}
    (failed : x.variableValue loc name = .error e) : e.Bare := by
  unfold variableValue at failed
  simp only at failed
  split at failed
  · rw [← Except.error.inj failed]
    exact ⟨rfl, rfl⟩
  · split at failed
    · cases failed
    · split at failed
      · cases failed
      · rw [← Except.error.inj failed]
        exact ⟨rfl, rfl⟩

theorem argumentValue_error {x : Execution σ} {a : Argument} {e : ResponseError}
    (failed : x.argumentValue a = .error e) : e.Bare := by
  obtain ⟨name, undefined⟩ := Literal.eval_error failed
  exact variableValue_error undefined

theorem givenArguments_error {x : Execution σ} {given : List Argument} {e : ResponseError}
    (failed : x.givenArguments given = .error e) : e.Bare := by
  induction given with
  | nil => cases failed
  | cons a rest ih =>
    rw [givenArguments] at failed
    cases first : x.argumentValue a with
    | error e' =>
      rw [first] at failed
      obtain rfl := Except.error.inj failed
      exact argumentValue_error first
    | ok d =>
      rw [first] at failed
      cases later : x.givenArguments rest with
      | error e' =>
        rw [later] at failed
        obtain rfl := Except.error.inj failed
        exact ih later
      | ok ds => rw [later] at failed; cases failed

theorem arguments_apply (x : Execution σ) (f : FieldDef) (head : FieldHead) (r : Run σ) :
    (∃ a, x.arguments f head r = (.ok a, r)) ∨
      ∃ e : ResponseError, e.Bare ∧ x.arguments f head r = (.error e, r) := by
  cases given : x.givenArguments head.arguments with
  | ok ds =>
    refine .inl ⟨withDefaults f.arguments ds, ?_⟩
    unfold arguments
    rw [given]
    rfl
  | error e =>
    refine .inr ⟨e, givenArguments_error given, ?_⟩
    unfold arguments
    rw [given]
    rfl

end Execution

end RowGraph
