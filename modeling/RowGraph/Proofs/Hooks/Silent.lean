import RowGraph.Proofs.Execution.Alike
import RowGraph.Proofs.Hooks.Called
import RowGraph.Proofs.Schema.Hooked
/-!
Schemas that differ in their hooks alone. Main statement: if what the hooks of one refuse is what
those of the other refuse, with the same words, then all requests have the same responses and leave
the same stores.
-/

namespace RowGraph

variable {σ : Type}

namespace ButCalls

variable {quiet : Prop} {object object' : Complete.ObjectData σ}

theorem enumValue (t : TypeDef) (values : List String) (path : Path) (loc : Location) (o : Outcome) :
    ButCalls (σ := σ) quiet (Complete.enumValue t values path loc o)
      (Complete.enumValue t values path loc o) := by
  unfold Complete.enumValue
  split
  · split
    · exact pure _
    · exact throw _
  · split
    · exact pure _
    · exact throw _
  · exact throw _

theorem value (objects : ∀ t o here, ButCalls quiet (object t o here) (object' t o here))
    (t : TypeDef) (path : Path) (loc : Location) (o : Outcome) :
    ButCalls quiet (Complete.value t object path loc o) (Complete.value t object' path loc o) := by
  unfold Complete.value
  split
  · exact objects t o path
  · exact enumValue t _ path loc o
  · split
    · exact pure _
    · exact throw _

theorem absent (nonNull : Bool) (path : Path) (loc : Location) :
    ButCalls (σ := σ) quiet (Complete.absent nonNull path loc) (Complete.absent nonNull path loc) := by
  cases nonNull with
  | true => exact throw _
  | false => exact pure none

theorem outcome (objects : ∀ t o here, ButCalls quiet (object t o here) (object' t o here))
    (c : Catalog) (loc : Location) (type : TypeExpr) (path : Path) (o : Option Outcome) :
    ButCalls quiet (Complete.outcome c object loc type path o)
      (Complete.outcome c object' loc type path o) := by
  induction type generalizing path o with
  | named name nonNull =>
    cases o with
    | none => exact absent nonNull path loc
    | some o =>
      unfold Complete.outcome
      cases c.type? name with
      | none => exact pure none
      | some t => exact (value objects t path loc o).map some
  | list item nonNull ih =>
    cases o with
    | none => exact absent nonNull path loc
    | some o =>
      have each (items : List Outcome) : ButCalls quiet
          (Complete.elements item.nullable path
            (fun here o => Complete.outcome c object loc item here (some o)) 0 items)
          (Complete.elements item.nullable path
            (fun here o => Complete.outcome c object' loc item here (some o)) 0 items) :=
        elements item.nullable path (fun here o => ih here (some o)) items 0
      unfold Complete.outcome
      split
      · exact (each _).map _
      · exact (each _).map _
      · exact throw _

end ButCalls

namespace Execution

-- Executions of one operation that have other hooks.
structure Kindred (x x' : Execution σ) : Prop extends SameVariables x x' where
  catalog : x'.schema.catalog = x.schema.catalog
  resolvers : x'.schema.resolvers = x.schema.resolvers
  backend : x'.backend = x.backend

namespace Kindred

variable {x x' : Execution σ} (kindred : x.Kindred x')

include kindred

theorem describes : x.Describes x' :=
  SameCatalog.describes
    ⟨kindred.toSameVariables, kindred.catalog ▸ ⟨rfl, rfl, rfl, rfl, rfl, rfl, rfl⟩⟩

theorem entrance? : x'.entrance? = x.entrance? := by
  funext type name
  unfold Execution.entrance?
  rw [kindred.catalog]

theorem resolver : x'.resolver = x.resolver := by
  funext here loc arguments parent r
  unfold Execution.resolver
  rw [kindred.backend]

end Kindred

-- Their hooks refuse the same, with the same words.
structure Unhindered (x x' : Execution σ) : Prop extends Kindred x x' where
  refusals : ∀ type field arguments,
    Hook.refusalAmong arguments (x'.schema.hooksOn type field) =
      Hook.refusalAmong arguments (x.schema.hooksOn type field)

namespace Unhindered

variable {x x' : Execution σ} (same : x.Unhindered x')

include same

theorem declaredField (type field : String) (here : Path) (loc : Location) (arguments : Arguments)
    (parent : Outcome) : ButCalls False (x.declaredField type field here loc arguments parent)
      (x'.declaredField type field here loc arguments parent) := by
  intro r calls
  rw [declaredField_guarded, declaredField_guarded]
  have refusals := same.refusals type field arguments
  unfold Schema.hooksOn at refusals
  unfold guarded
  rw [refusals, same.resolvers]
  split
  · exact ⟨_, False.elim, rfl⟩
  · rename_i resolver _ _
    have unheard : ButCalls False (x.resolver here loc arguments parent resolver)
        (x'.resolver here loc arguments parent resolver) := by
      rw [same.resolver]
      exact x.resolver_unheard here loc arguments parent resolver
    let called (hooks : HookMap) : List HookCall :=
      Hook.calls type field arguments ((FieldMap.get? hooks type field).getD [])
    obtain ⟨calls', _, ran⟩ := unheard { r with calls := r.calls ++ called x.schema.hooks }
      (calls ++ called x'.schema.hooks)
    refine ⟨calls', False.elim, ?_⟩
    exact congrArg (fun w => (w.1.mapError (·.raisedAt loc), w.2)) ran
  · exact ⟨_, False.elim, rfl⟩

theorem field (type : TypeDef) (parent : Outcome) (path : Path) (head : FieldHead)
    {object object' : Complete.ObjectData σ}
    (objects : ∀ t o here, ButCalls False (object t o here) (object' t o here)) (f : FieldDef) :
    ButCalls False (x.field type parent path head object f)
      (x'.field type parent path head object' f) := by
  unfold Execution.field
  rw [same.arguments, same.catalog]
  refine ButCalls.bind ?_ fun arguments => ButCalls.guard _ _ ?_
  · exact (ButCalls.lift _).bind fun given => .pure _
  · refine (same.declaredField type.name f.name _ head.loc arguments parent).bind fun o => ?_
    exact .outcome objects x.schema.catalog head.loc f.type _ o

end Unhindered

mutual

theorem Unhindered.selection {x x' : Execution σ} (same : x.Unhindered x') (type : TypeDef)
    (parent : Outcome) (path : Path) : ∀ n : Node,
    ButCalls False (x.selection type parent path n) (x'.selection type parent path n)
  | .group condition _ children => by
    unfold Execution.selection
    split
    · exact same.selections type parent path children
    · exact .pure []
  | .field head children => by
    unfold Execution.selection
    rw [same.entrance?]
    split
    · exact .pure _
    · cases x.entrance? type head.name with
      | some f =>
        simp only [same.describes path head f children]
        exact (x.enterDescription_unheard path head f children).bind fun d => .pure _
      | none =>
        cases type.field? head.name with
        | none => exact .pure []
        | some f =>
          refine (same.field type parent path head (fun t o here => ?_) f).bind fun d => .pure _
          exact (same.selections t o here children).map _

theorem Unhindered.selections {x x' : Execution σ} (same : x.Unhindered x') (type : TypeDef)
    (parent : Outcome) (path : Path) : ∀ nodes : List Node,
    ButCalls False (x.selections type parent path nodes) (x'.selections type parent path nodes)
  | [] => by
    unfold Execution.selections
    exact .pure []
  | n :: rest => by
    unfold Execution.selections
    refine (same.selection type parent path n).bind fun results => ?_
    exact (same.selections type parent path rest).bind fun more => .pure _

end

theorem Unhindered.run {x x' : Execution σ} (same : x.Unhindered x') (root : TypeDef)
    (nodes : List Node) (store : σ) : ∃ calls, x'.run root nodes store =
      ((x.run root nodes store).1, { (x.run root nodes store).2 with calls }) := by
  obtain ⟨calls, _, ran⟩ := same.selections root .root [] nodes { store } []
  refine ⟨calls, ?_⟩
  unfold Execution.run ExceptT.run
  rw [show x'.selections root .root [] nodes { store } = _ from ran]
  rcases x.selections root .root [] nodes { store } with ⟨_ | _, _⟩ <;> rfl

end Execution

section

variable {s : Schema} {hooks : HookMap}
  (same : ∀ type field arguments,
    Hook.refusalAmong arguments ((s.rehook hooks).hooksOn type field) =
      Hook.refusalAmong arguments (s.hooksOn type field))

include same

theorem Schema.execute_unhindered (b : Backend σ) (r : Request) (store : σ) :
    ∃ calls, (s.rehook hooks).execute b r store = { s.execute b r store with calls } := by
  have prepared : r.prepare (s.rehook hooks) = r.prepare s := rfl
  unfold Schema.execute
  rw [prepared]
  cases r.prepare s with
  | error refusal => cases refusal <;> exact ⟨[], rfl⟩
  | ok m =>
    have catalog : (s.rehook hooks).catalog = s.catalog := rfl
    simp only [catalog]
    cases (s.catalog.root? m.operation.kind).bind s.catalog.type? with
    | none => exact ⟨[], rfl⟩
    | some root =>
      have unhindered : Execution.Unhindered (σ := σ) ⟨s, b, m.operation.variableDefs, r.values⟩
          ⟨s.rehook hooks, b, m.operation.variableDefs, r.values⟩ :=
        ⟨⟨⟨rfl, rfl⟩, rfl, rfl, rfl⟩, same⟩
      obtain ⟨calls, ran⟩ := unhindered.run root m.nodes store
      simp only [ran]
      exact ⟨calls, rfl⟩

-- All but the calls.
theorem Schema.serve_unhindered (b : Backend σ) (requests : List Request) (store : σ) :
    ((s.rehook hooks).serve b requests store).1.map Prod.fst =
        (s.serve b requests store).1.map Prod.fst ∧
      ((s.rehook hooks).serve b requests store).2 = (s.serve b requests store).2 := by
  induction requests generalizing store with
  | nil => exact ⟨rfl, rfl⟩
  | cons r rest ih =>
    obtain ⟨calls, answered⟩ := Schema.execute_unhindered same b r store
    obtain ⟨responses, last⟩ := ih (s.execute b r store).store
    unfold Schema.serve
    rw [answered]
    exact ⟨congrArg (_ :: ·) responses, last⟩

end

end RowGraph
