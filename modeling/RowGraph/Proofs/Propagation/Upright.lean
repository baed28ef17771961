import RowGraph.Proofs.Propagation.Account
import RowGraph.Proofs.Schema.Inner
/-!
Errors on their way out of an object that is not the root. Nothing there leads to the description of
the schema, so all positions are counted from the root. Main statement: what leaves a computation at
such a position has no path yet, or one that goes through the position.
-/

namespace RowGraph

variable {σ α : Type}

-- What a type expression asks of the objects in an outcome, where the type alone decides.
theorem fits_of_type {c : Catalog} {Ok : TypeDef → Prop} {type : TypeExpr}
    (all : ∀ t, c.type? type.name = some t → Ok t) (o : Outcome) :
    Fits c (fun t _ => Ok t) type o := by
  induction type generalizing o with
  | named name nonNull => exact fun t known => all t known
  | list item nonNull ih => exact fun _ _ i _ => ih all i

-- How a computation at a position may fail.
def FailsAt (p : Path) (result : Except Fault α) : Prop :=
  ∀ fault, result = .error fault → fault.error.path = [] ∨ p <+: fault.error.path

-- Errors that wait at their elements have no path yet, and it stays so.
def Upright (α : Type) (p : Path) (r : Run σ) (w : Watch σ α) : Prop :=
  Unplaced r.marks → Unplaced w.run.marks ∧ FailsAt p w.result

namespace Upright

theorem close {p : Path} {v : Visit} {w : Watch σ (Option Datum)} (inner : p <+: v.place.path)
    (unplaced : Unplaced w.run.marks) (inside : FailsAt v.place.path w.result) :
    Unplaced (Watched.close v w).run.marks ∧ FailsAt p (Watched.close v w).result := by
  obtain ⟨_, closed⟩ := Watched.close_closed v w
  refine ⟨closed.marks ▸ unplaced, fun fault failed => .inr ?_⟩
  unfold Watched.close at failed
  cases result : w.result with
  | ok d =>
    rw [result] at failed
    cases failed
  | error own =>
    rw [result] at failed
    simp only at failed
    split at failed
    · cases failed
    · obtain rfl := Except.error.inj failed
      change p <+: (Exec.located v.place.path own.error).path
      rw [Exec.located_path]
      split
      · exact inner
      · rename_i placed
        exact inner.trans ((inside own result).resolve_left placed)

theorem idle {p : Path} {r r' : Run σ} {result : Except Fault α}
    (kept : Unplaced r.marks → Unplaced r'.marks) (fails : FailsAt p result) :
    Upright α p r ⟨result, r', []⟩ := fun unplaced => ⟨kept unplaced, fails⟩

theorem fails_ok {p : Path} {a : α} : FailsAt p (.ok a : Except Fault α) :=
  fun _ absurd => nomatch absurd

theorem fails_error {p : Path} {fault : Fault}
    (placed : fault.error.path = [] ∨ fault.error.path = p) :
    FailsAt p (.error fault : Except Fault α) := by
  intro other same
  obtain rfl := Except.error.inj same
  rcases placed with free | here
  · exact .inl free
  · exact .inr (here ▸ List.prefix_rfl)

theorem steps : Steps (σ := σ) Upright where
  give _ _ _ _ := idle id fails_ok
  raise _ _ _ _ placed _ := idle id (fails_error placed)
  next _ _ _ _ _ _ _ first _ rest unplaced := rest (first unplaced).1
  stop _ _ _ _ _ fault first result unplaced := by
    obtain ⟨kept, fails⟩ := first unplaced
    refine ⟨kept, fun other same => ?_⟩
    obtain rfl := Except.error.inj same
    exact fails fault result
  atElement p i nullable body r inside unplaced := by
    have inner : p <+: p ++ [.index i] := List.prefix_append _ _
    have kept := unplaced.takeMark (p ++ [.index i])
    have found := (Exec.takeMark_eq (p ++ [.index i]) r).1
    unfold Watched.element
    generalize Exec.takeMark (p ++ [.index i]) r = taken at inside kept found ⊢
    obtain ⟨mark, r'⟩ := taken
    match mark, found with
    | none, _ => exact close inner (inside kept).1 (inside kept).2
    | some none, _ =>
      refine close inner kept ?_
      cases nullable with
      | true => exact fails_ok
      | false => exact fails_error (.inl rfl)
    | some (some e), found =>
      exact close inner kept (fails_error (.inl (unplaced _ e found.symm)))

-- Below the root no selection leads to the description.
theorem law {x : Execution σ} (built : x.schema.Built) :
    Law x Upright fun _ t _ => x.schema.Inner t where
  toSteps := steps
  lasting _ _ _ _ _ _ _ inner := inner
  invocation type parent p key loc object f arguments r inner declared objects _ := by
    intro unplaced
    have resolved := x.declaredField_declared type.name f.name (p ++ [.field key]) loc arguments
      parent r
    have deeper : p <+: p ++ [.field key] := List.prefix_append _ _
    unfold Execution.watchInvocation
    split
    · rename_i o r' ran
      rw [ran] at resolved
      have outcome := steps.ofOutcome (c := x.schema.catalog) (fun _ _ _ _ _ _ _ ok => ok) objects
        loc f.type (p ++ [.field key]) o r' fun found same => by
          subst same
          obtain ⟨resolver, served⟩ := resolved.served
          exact fits_of_type (fun t known =>
            built.grounded.inner_of_field inner.known declared served known) found
      obtain ⟨kept, fails⟩ := outcome (resolved.silent.unplaced unplaced)
      exact close deeper kept fails
    · rename_i e r' ran
      rw [ran] at resolved
      have silent := resolved.silent
      exact close deeper (silent.unplaced unplaced) (fails_error (.inl (silent.error e rfl)))
  description type _ p head f children r inner entered := by
    rw [Execution.entrance?, inner.entrances built] at entered
    cases entered

end Upright

end RowGraph
