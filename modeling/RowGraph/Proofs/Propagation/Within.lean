import RowGraph.Proofs.Propagation.Upright
/-!
Errors that are absorbed in an object that is not the root. Main statement: each of them has a path
that goes through the position of the object.
-/

namespace RowGraph

variable {σ α : Type}

-- What is absorbed between two states has paths through a position.
def AbsorbsAt (p : Path) (r r' : Run σ) : Prop :=
  ∃ es, r'.absorbed = r.absorbed ++ es ∧ ∀ e ∈ es, p <+: e.path

namespace AbsorbsAt

variable {p : Path} {r r' r'' : Run σ}

theorem none (same : r'.absorbed = r.absorbed) : AbsorbsAt p r r' :=
  ⟨[], by rw [same, List.append_nil], fun _ absurd => nomatch absurd⟩

theorem one {e : ResponseError} (same : r'.absorbed = r.absorbed ++ [e]) (placed : p <+: e.path) :
    AbsorbsAt p r r' :=
  ⟨[e], same, fun _ member => List.mem_singleton.mp member ▸ placed⟩

theorem trans (first : AbsorbsAt p r r') (second : AbsorbsAt p r' r'') : AbsorbsAt p r r'' := by
  obtain ⟨es, absorbed, placed⟩ := first
  obtain ⟨es', absorbed', placed'⟩ := second
  refine ⟨es ++ es', by rw [absorbed', absorbed, List.append_assoc], fun e member => ?_⟩
  exact (List.mem_append.mp member).elim (placed e) (placed' e)

theorem outer {q : Path} (deeper : p <+: q) (inside : AbsorbsAt q r r') : AbsorbsAt p r r' := by
  obtain ⟨es, absorbed, placed⟩ := inside
  exact ⟨es, absorbed, fun e member => deeper.trans (placed e member)⟩

theorem since (same : r'.absorbed = r.absorbed) (later : AbsorbsAt p r' r'') : AbsorbsAt p r r'' :=
  (none same).trans later

-- A position adds at most the error that has come out of it.
theorem close {v : Visit} {w : Watch σ (Option Datum)} (fails : FailsAt v.place.path w.result)
    (inside : AbsorbsAt v.place.path r w.run) :
    AbsorbsAt v.place.path r (Watched.close v w).run := by
  unfold Watched.close
  cases result : w.result with
  | ok d => exact inside
  | error fault =>
    simp only
    split
    · refine inside.trans (.one rfl ?_)
      rw [Exec.located_path]
      split
      · exact List.prefix_rfl
      · exact (fails fault result).resolve_left ‹_›
    · exact inside

end AbsorbsAt

def Within (α : Type) (p : Path) (r : Run σ) (w : Watch σ α) : Prop :=
  Upright α p r w ∧ (Unplaced r.marks → AbsorbsAt p r w.run)

namespace Within

open Upright

theorem steps : Steps (σ := σ) Within where
  give α p r a := ⟨Upright.steps.give α p r a, fun _ => .none rfl⟩
  raise α p r e placed plain := ⟨Upright.steps.raise α p r e placed plain, fun _ => .none rfl⟩
  next α β p r w a w' first result rest :=
    ⟨Upright.steps.next α β p r w a w' first.1 result rest.1,
      fun unplaced => (first.2 unplaced).trans (rest.2 (first.1 unplaced).1)⟩
  stop α β p r w fault first result := ⟨Upright.steps.stop α β p r w fault first.1 result, first.2⟩
  atElement p i nullable body r inside := by
    refine ⟨Upright.steps.atElement p i nullable body r inside.1, fun unplaced => ?_⟩
    have kept := unplaced.takeMark (p ++ [.index i])
    obtain ⟨found, _, absorbed, _, _⟩ := Exec.takeMark_eq (p ++ [.index i]) r
    refine .outer (q := p ++ [.index i]) (List.prefix_append _ _) ?_
    unfold Watched.element
    generalize Exec.takeMark (p ++ [.index i]) r = taken at inside kept found absorbed ⊢
    obtain ⟨mark, r'⟩ := taken
    match mark, found with
    | none, _ => exact .since absorbed (.close (inside.1 kept).2 (inside.2 kept))
    | some none, _ =>
      refine .since absorbed (.close ?_ (.none rfl))
      cases nullable with
      | true => exact fails_ok
      | false => exact fails_error (.inl rfl)
    | some (some e), found =>
      exact .since absorbed (.close (fails_error (.inl (unplaced _ e found.symm))) (.none rfl))

theorem law {x : Execution σ} (built : x.schema.Built) :
    Law x Within fun _ t _ => x.schema.Inner t where
  toSteps := steps
  lasting _ _ _ _ _ _ _ inner := inner
  invocation type parent p key loc object f arguments r inner declared objects composes := by
    refine ⟨(Upright.law built).invocation type parent p key loc object f arguments r inner declared
      (fun r t o q ok => (objects r t o q ok).1) composes, fun unplaced => ?_⟩
    have resolved := x.declaredField_declared type.name f.name (p ++ [.field key]) loc arguments
      parent r
    refine .outer (q := p ++ [.field key]) (List.prefix_append _ _) ?_
    unfold Execution.watchInvocation
    split
    · rename_i o r' ran
      rw [ran] at resolved
      have silent := resolved.silent
      have outcome := steps.ofOutcome (c := x.schema.catalog) (fun _ _ _ _ _ _ _ ok => ok) objects
        loc f.type (p ++ [.field key]) o r' fun found same => by
          subst same
          obtain ⟨resolver, served⟩ := resolved.served
          exact fits_of_type (fun t known =>
            built.grounded.inner_of_field inner.known declared served known) found
      have kept := silent.unplaced unplaced
      exact .since silent.absorbed (.close (outcome.1 kept).2 (outcome.2 kept))
    · rename_i e r' ran
      rw [ran] at resolved
      have silent := resolved.silent
      exact .since silent.absorbed (.close (fails_error (.inl (silent.error e rfl))) (.none rfl))
  description type _ p head f children r inner entered := by
    rw [Execution.entrance?, inner.entrances built] at entered
    cases entered

end Within

end RowGraph
