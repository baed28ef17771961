import RowGraph.Proofs.Hooks.Likewise
import RowGraph.Proofs.Schema.Hooked
/-!
What is made of the value of a field, next to the same by an execution that has other hooks. Main
statement: if objects have the same but for what has been nulled, so has whatever a declared type
asks of an outcome, and so have lists whose elements go by marks.
-/

namespace RowGraph

open Resolve

variable {σ : Type}

-- The same operation on a schema with other hooks.
def Execution.rehook (x : Execution σ) (hooks : HookMap) : Execution σ :=
  { x with schema := x.schema.rehook hooks }

theorem Schema.Inner.rehook {s : Schema} {t : TypeDef} (inner : s.Inner t) (hooks : HookMap) :
    (s.rehook hooks).Inner t := ⟨inner.known, inner.kind⟩

-- The objects that some selections show have the same, but for what has been nulled.
def Execution.ShowsLikewise (x : Execution σ) (hooks : HookMap) (barred : Visit → Prop)
    (children : List Node) : Prop :=
  ∀ t o q (r r' : Run σ), x.schema.Inner t → Level (Below q) r r' →
    Likewise barred (fun hit => Datum.AgreesOff hit q) r r' (x.watchedData children t o q r)
      (Direct.objectData (x.rehook hooks) children t o q r')

namespace Execution

variable {x : Execution σ} {hooks : HookMap} {barred : Visit → Prop} {children : List Node}

theorem records_data (x : Execution σ) (children : List Node) (t : TypeDef) (o : Outcome) (q : Path) :
    Records (x.watchedData children t o q) (x.objectData children t o q) :=
  (Records.selections x t o q children).map Datum.ofResults

section

variable (shows : x.ShowsLikewise hooks barred children)

include shows

theorem value_likewise {t : TypeDef} {p : Path} (inner : x.schema.Inner t) (loc : Location)
    (o : Outcome) {r r' : Run σ} (level : Level (Below p) r r') :
    Likewise barred (fun hit => Datum.AgreesOff hit p) r r'
      (Watched.value t (x.watchedData children) p loc o r)
      (Complete.value t (Direct.objectData (x.rehook hooks) children) p loc o r') := by
  have mirrors : Mirrors (σ := σ) False (Below p)
      (Complete.value t (fun _ _ _ => pure .null) p loc o)
      (Complete.value t (fun _ _ _ => pure .null) p loc o) := .value (.pure _) loc
  have leaf : Likewise barred (fun hit => Datum.AgreesOff hit p) r r'
      (Watched.own (Complete.value t (fun _ _ _ => pure .null) p loc o) r)
      (Complete.value t (fun _ _ _ => pure .null) p loc o r') :=
    .own (fun _ _ => .refl _ _) (mirrors r r' level).1
  unfold Watched.value
  cases body : t.body with
  | object fields =>
    have entered : Complete.value t (Direct.objectData (x.rehook hooks) children) p loc o =
        Direct.objectData (x.rehook hooks) children t o p := by
      simp only [Complete.value, body]
    rw [entered]
    exact shows t o p r r' inner level
  | _ =>
    simp only [Complete.value, body] at leaf ⊢
    exact leaf

variable (calm : x.Calm) (calm' : (x.rehook hooks).Calm)

include calm calm'

omit shows in
-- What the two sides make of elements that both show alike: the other clauses hold of either side by
-- itself.
theorem bodies_of_alike {type : TypeExpr}
    (inner : ∀ t, x.schema.catalog.type? type.name = some t → x.schema.Inner t) {loc : Location}
    (alike : ∀ p o (r r' : Run σ), Level (Below p) r r' → Likewise barred (Datum.at_ p) r r'
      (Watched.outcome x.schema.catalog (x.watchedData children) loc type p (some o) r)
      (Complete.outcome x.schema.catalog (Direct.objectData (x.rehook hooks) children) loc type p
        (some o) r')) :
    Bodies barred
      (fun p o => Watched.outcome x.schema.catalog (x.watchedData children) loc type p (some o))
      (fun p o => Complete.outcome x.schema.catalog (Direct.objectData (x.rehook hooks) children) loc
        type p (some o)) := by
  have records (p : Path) (o : Outcome) :=
    Records.outcome (x.records_data children) x.schema.catalog loc type p (some o)
  refine ⟨fun p o r free => ?_, fun p o r free => ?_, fun p o r bare => ?_, alike⟩
  · have mirrors : Mirrors False (Below p)
        (Complete.outcome x.schema.catalog (x.objectData children) loc type p (some o))
        (Complete.outcome x.schema.catalog (Direct.objectData x children) loc type p (some o)) :=
      .outcome (fun t o q found => calm.objects_mirror children t o q (inner t found)) loc p (some o)
    have keeps := (mirrors r { r with marks := [] } ⟨rfl, rfl, free⟩).2
    rwa [records p o r] at keeps
  · have contained := (calm.outcome_contained children inner loc p (some o)).1 r free
    rwa [records p o r] at contained
  · exact (calm'.outcome_contained children (fun t found => (inner t found).rehook hooks) loc p
      (some o)).2 r bare

-- What a declared type asks of an outcome, on both sides.
theorem bodies {type : TypeExpr}
    (inner : ∀ t, x.schema.catalog.type? type.name = some t → x.schema.Inner t) (loc : Location) :
    Bodies barred
      (fun p o => Watched.outcome x.schema.catalog (x.watchedData children) loc type p (some o))
      (fun p o => Complete.outcome x.schema.catalog (Direct.objectData (x.rehook hooks) children) loc
        type p (some o)) := by
  induction type with
  | named name nonNull =>
    refine bodies_of_alike calm calm' inner fun p o r r' level => ?_
    unfold Watched.outcome Complete.outcome
    cases known : x.schema.catalog.type? name with
    | none => exact .pure level.store level.bare fun _ => .refl _ _
    | some t =>
      exact (value_likewise shows (inner t known) loc o level).map some fun _ _ _ alike => alike
  | list item nonNull ih =>
    refine bodies_of_alike calm calm' inner fun p o r r' level => ?_
    have each (items : List Outcome) := (ih inner).items (p := p) loc item.nullable items level
    have failed : Likewise barred (Datum.at_ p) r r'
        (Watched.own (Complete.fail p loc "internal: expects an array") r)
        (Complete.fail p loc "internal: expects an array" r') := .same (.throw _) level
    simp only [Watched.outcome, Complete.outcome]
    cases o with
    | row row => exact failed
    | list items => exact each items
    | leaf d =>
      cases d with
      | list ds => exact each (ds.map .leaf)
      | _ => exact failed

end

end Execution

end RowGraph
