import RowGraph.Proofs.Hooks.Called
import RowGraph.Proofs.Hooks.Outcomes
import RowGraph.Proofs.Hooks.Silent
/-!
Fields whose hooks are taken away, next to the same fields with all of their hooks. If both sides
refuse a field in the same words, or neither does, what it shows is the same but for what has been
nulled inside of it; otherwise the position is null by the refusal, or the refusal is on its way.
Main statement: this holds of every selection on an object that is not the root.
-/

namespace RowGraph

open Resolve

variable {σ α β : Type}

theorem Direct.declaredField_called (x : Execution σ) (type field : String) (loc : Location)
    (arguments : Arguments) (parent : Outcome) (r : Run σ) :
    declaredField x type field loc arguments parent r =
      (let hooks := x.schema.hooksOn type field
      let called : Run σ := { r with calls := r.calls ++ Hook.calls type field arguments hooks }
      match Hook.refusalAmong arguments hooks, FieldMap.get? x.schema.resolvers type field with
      | some message, _ => (.error { message, locations := [loc] }, called)
      | none, some r =>
        let ran := resolver x arguments parent r called
        (ran.1.mapError (·.raisedAt loc), ran.2)
      | none, none => (.ok (.outcome none), called)) := by
  unfold declaredField Schema.hooksOn
  rw [bind_apply, Execution.runHooks_called]
  dsimp only
  cases Hook.refusalAmong arguments ((FieldMap.get? x.schema.hooks type field).getD []) with
  | some message => rfl
  | none => cases FieldMap.get? x.schema.resolvers type field <;> rfl

theorem Execution.nothing_likewise {x : Execution σ} {barred : Visit → Prop}
    {object : Watched.ObjectData σ} {object' : Complete.ObjectData σ} {type : TypeExpr} {p : Path}
    (loc : Location) {r r' : Run σ} (level : Level (Below p) r r') :
    Likewise barred (Datum.at_ p) r r'
      (Watched.outcome x.schema.catalog object loc type p none r)
      (Complete.outcome x.schema.catalog object' loc type p none r') := by
  cases type with
  | named name nonNull => exact .same (.absent nonNull p loc) level
  | list item nonNull => exact .same (.absent nonNull p loc) level

theorem Execution.records_value (x : Execution σ) (type : TypeDef) (parent : Outcome) (here : Path)
    (loc : Location) (children : List Node) (f : FieldDef) (arguments : Arguments) (r : Run σ) :
    (x.declaredField type.name f.name here loc arguments parent >>=
      Complete.outcome x.schema.catalog (x.objectData children) loc f.type here) r =
    (Watched.continued (x.declaredField type.name f.name here loc arguments parent r)
      (Watched.outcome x.schema.catalog (x.watchedData children) loc f.type here)).erase := by
  rw [← Watched.continued_eq]
  exact (Records.own _).bind (fun o => Records.outcome (x.records_data children) _ loc f.type here o) r

-- A field that is refused, and that other hooks do not refuse in the same words.
def Schema.Bars (s : Schema) (hooks : HookMap) (v : Visit) : Prop :=
  ∃ message, v.refusal? s.hooksOn = some message ∧
    v.refusal? (s.rehook hooks).hooksOn ≠ some message

-- The other hooks refuse nothing that is not refused.
def Schema.Stricter (s : Schema) (hooks : HookMap) : Prop :=
  ∀ type field arguments, Hook.refusalAmong arguments (s.hooksOn type field) = none →
    Hook.refusalAmong arguments ((s.rehook hooks).hooksOn type field) = none

namespace Execution

variable {x : Execution σ} {hooks : HookMap} {barred : Visit → Prop} {children : List Node}
  (shows : x.ShowsLikewise hooks barred children) (calm : x.Calm) (calm' : (x.rehook hooks).Calm)
  {type : TypeDef} (known : x.schema.catalog.type? type.name = some type) {f : FieldDef}
  (declared : type.field? f.name = some f)

include shows calm calm' known declared

theorem passes_likewise {resolver : Resolver}
    (resolves : FieldMap.get? x.schema.resolvers type.name f.name = some resolver) {here : Path}
    {loc : Location} {r r' : Run σ} (level : Level (Below here) r r')
    {w : Except ResponseError (Option Outcome) × Run σ} {w' : Except ResponseError Delivery × Run σ}
    (passes : Passes resolver here loc r r' w w') :
    Likewise barred (Datum.at_ here) r r'
      (Watched.continued w (Watched.outcome x.schema.catalog (x.watchedData children) loc f.type here))
      (Exec.continued w' (Direct.complete x.schema.catalog
        (Direct.objectData (x.rehook hooks) children) loc f.type here)) := by
  have grounded := calm.built.grounded
  have inner (t : TypeDef) (found : x.schema.catalog.type? f.type.name = some t) :
      x.schema.Inner t := grounded.inner_of_field known declared resolves found
  cases passes with
  | @plain result s s' mirrored keeps =>
    cases result with
    | error e => exact .failed (.ofMirrored mirrored)
    | ok o =>
      refine .after (.ofMirrored mirrored) ?_
      have later := level.keep mirrored keeps
      cases o with
      | none => exact nothing_likewise loc later
      | some o => exact (bodies shows calm calm' inner loc).alike here o s s' later
  | @list links shape table required s s' shaped kind rows mirrored marked =>
    obtain ⟨item, nonNull, listed⟩ : ∃ item nonNull, f.type = .list item nonNull :=
      ⟨_, _, FieldShape.classify_references (grounded.classified known declared resolves shaped) kind⟩
    rw [listed] at inner ⊢
    refine .after (.ofMirrored mirrored) ?_
    have inside : ∀ t, x.schema.catalog.type? item.name = some t → x.schema.Inner t := inner
    have elements := (bodies shows calm calm' inside loc).elements (p := here) loc
      item.nullable links 0 mirrored.store mirrored.bare (marked.inside level.free)
      (marked.waits level.free)
    exact elements.map _ fun _ _ _ same => .list same

-- A field that both sides refuse in the same words, or neither does.
theorem alike_likewise (here : Path) (loc : Location) {arguments : Arguments} (parent : Outcome)
    (same : Hook.refusalAmong arguments ((x.rehook hooks).schema.hooksOn type.name f.name) =
      Hook.refusalAmong arguments (x.schema.hooksOn type.name f.name))
    {r r' : Run σ} (level : Level (Below here) r r') :
    Likewise barred (Datum.at_ here) r r'
      (Watched.continued (x.declaredField type.name f.name here loc arguments parent r)
        (Watched.outcome x.schema.catalog (x.watchedData children) loc f.type here))
      (Exec.continued
        (Direct.declaredField (x.rehook hooks) type.name f.name loc arguments parent r')
        (Direct.complete x.schema.catalog (Direct.objectData (x.rehook hooks) children) loc f.type
          here)) := by
  have resolvers : (x.rehook hooks).schema.resolvers = x.schema.resolvers := rfl
  rw [Direct.declaredField_called, declaredField_guarded, resolvers]
  dsimp only
  rw [same]
  unfold guarded Schema.hooksOn
  -- Hooks that have been called leave nothing but a note of it.
  have called (calls calls' : List HookCall) :
      Level (Below here) { r with calls } { r' with calls := calls' } ∧
        Grown (fun _ => False) r r' { r with calls } { r' with calls := calls' } :=
    ⟨⟨level.store, level.bare, level.free⟩, .still level.store level.bare rfl rfl rfl rfl⟩
  cases Hook.refusalAmong arguments ((FieldMap.get? x.schema.hooks type.name f.name).getD []) with
  | some message => exact .failed ((called _ _).2.mono fun _ absurd => absurd.elim)
  | none =>
    cases resolves : FieldMap.get? x.schema.resolvers type.name f.name with
    | none => exact .after (called _ _).2 (nothing_likewise loc (called _ _).1)
    | some resolver =>
      have reads : Direct.resolver (x.rehook hooks) arguments parent resolver =
          Direct.resolver x arguments parent resolver := by
        cases resolver <;> rfl
      have conveys := (Direct.resolver_conveys here loc x arguments parent resolver).adapt
        (fun e : GraphError => e.raisedAt loc)
      have start (calls calls' : List HookCall) := by
        have passes := conveys { r with calls } { r' with calls := calls' }
          ((called calls calls').1.mono fun _ absurd => absurd.elim)
        rw [adapt_apply, adapt_apply, ← reads] at passes
        exact Likewise.after (called calls calls').2
          (passes_likewise shows calm calm' known declared resolves (called calls calls').1 passes)
      exact start _ _

omit shows in
theorem invocation_likewise (stricter : x.schema.Stricter hooks)
    (shows : x.ShowsLikewise hooks (x.schema.Bars hooks) children)
    (reads : ∀ field, ¬ x.schema.Writes type.name field) {p : Path} {key : String} {loc : Location}
    {arguments : Arguments} {parent : Outcome} {r r' : Run σ}
    (level : Level (Below (p ++ [.field key])) r r') :
    Likewise (x.schema.Bars hooks) (Datum.at_ (p ++ [.field key])) r r'
      (x.watchInvocation type parent (p ++ [.field key]) loc (x.watchedData children) f arguments r)
      (Exec.guard (p ++ [.field key]) f.type.nullable
        (Direct.declaredField (x.rehook hooks) type.name f.name loc arguments parent >>=
          Direct.complete x.schema.catalog (Direct.objectData (x.rehook hooks) children) loc f.type
            (p ++ [.field key])) r') := by
  let here := p ++ [Segment.field key]
  have contained := (calm.value_contained children known reads declared parent here loc
    arguments).1 r level.free
  obtain ⟨contained', bare⟩ := (calm'.value_contained children known reads declared parent here loc
    arguments).2 r' level.bare
  obtain ⟨v, place, closes⟩ := x.watchInvocation_close type parent here loc
    (x.watchedData children) f arguments r
  have nullable : f.type.nullable = v.place.nullable := by rw [place]
  rw [closes, nullable]
  by_cases same : Hook.refusalAmong arguments ((x.rehook hooks).schema.hooksOn type.name f.name) =
      Hook.refusalAmong arguments (x.schema.hooksOn type.name f.name)
  · have inside := alike_likewise shows calm calm' known declared here loc parent same level
    rw [Exec.continued_eq] at inside
    refine inside.close (by rw [place]) level.store ?_ contained' bare
    rwa [x.records_value] at contained
  · cases refused : Hook.refusalAmong arguments (x.schema.hooksOn type.name f.name) with
    | none => exact absurd ((stricter _ _ _ refused).trans refused.symm) same
    | some message =>
      obtain ⟨calls, ran⟩ : ∃ calls, x.declaredField type.name f.name here loc arguments parent r =
          (.error { message, locations := [loc] }, { r with calls }) := by
        rw [declaredField_guarded]
        unfold guarded
        unfold Schema.hooksOn at refused
        rw [refused]
        exact ⟨_, rfl⟩
      have bars (u : Visit) (there : u.place = v.place) : x.schema.Bars hooks u := by
        unfold Schema.Bars Visit.refusal?
        rw [there, place]
        exact ⟨message, refused, fun other => same (other.trans refused.symm)⟩
      rw [ran]
      exact .bar (by rw [place]) (by simp) bars rfl level.store rfl rfl rfl contained' bare

omit shows in
theorem field_likewise (stricter : x.schema.Stricter hooks)
    (shows : x.ShowsLikewise hooks (x.schema.Bars hooks) children)
    (reads : ∀ field, ¬ x.schema.Writes type.name field) (parent : Outcome) (path : Path)
    (head : FieldHead) {r r' : Run σ} (level : Level (Below (path ++ [.field head.key])) r r') :
    Likewise (x.schema.Bars hooks) (Datum.at_ (path ++ [.field head.key])) r r'
      (x.watchField type parent path head (x.watchedData children) f r)
      (Direct.field (x.rehook hooks) type parent path head
        (Direct.objectData (x.rehook hooks) children) f r') := by
  have kindred : x.Kindred (x.rehook hooks) := ⟨⟨rfl, rfl⟩, rfl, rfl, rfl⟩
  unfold watchField Direct.field
  rw [kindred.arguments, Watched.continued_eq, bind_apply]
  rcases x.arguments_read f head with ⟨a, read⟩ | ⟨e, read⟩
  · rw [read, read]
    exact invocation_likewise calm calm' known declared stricter shows reads level
  · rw [read, read]
    exact .failed (.refl level.store level.bare)

end Execution

mutual

theorem Execution.selection_likewise {x : Execution σ} {hooks : HookMap} (calm : x.Calm)
    (calm' : (x.rehook hooks).Calm) (stricter : x.schema.Stricter hooks) {type : TypeDef}
    (inner : x.schema.Inner type) (parent : Outcome) (path : Path) : ∀ (n : Node) {r r' : Run σ},
    Level (Below path) r r' →
    Likewise (x.schema.Bars hooks) (fun hit => Datum.MembersOff hit path) r r'
      (x.watchSelection type parent path n r)
      (Direct.selection (x.rehook hooks) type parent path n r')
  | .group condition _ children, r, r', level => by
    rw [Execution.watchSelection, Direct.selection]
    split
    · exact selections_likewise calm calm' stricter inner parent path children level
    · exact .pure level.store level.bare fun _ => .nil
  | .field head children, r, r', level => by
    have aside (y : Execution σ) (same : y.schema.catalog = x.schema.catalog) :
        y.entrance? type head.name = none := by
      rw [Execution.entrance?, same, inner.entrances calm.built]
      rfl
    rw [Execution.watchSelection, Direct.selection, aside x rfl, aside (x.rehook hooks) rfl]
    split
    · exact .pure level.store level.bare fun _ => .cons (.refl _ _) .nil
    · cases declared : type.field? head.name with
      | none => exact .pure level.store level.bare fun _ => .nil
      | some f =>
        have named : f.name = head.name := by simpa using List.find?_some declared
        have below : Level (Below (path ++ [.field head.key])) r r' :=
          level.mono fun q => (Below.snoc path (.field head.key)).trans
        have shows : x.ShowsLikewise hooks (x.schema.Bars hooks) children := by
          intro t o q s s' inside level
          exact (selections_likewise calm calm' stricter inside o q children level).map _
            fun _ _ _ members => .ofResults members
        have reads (field : String) (writes : x.schema.Writes type.name field) : False :=
          inner.kind (calm.built.grounded.kindOf_writes writes)
        exact (field_likewise calm calm' inner.known (named ▸ declared) stricter shows reads parent
          path head below).member

theorem Execution.selections_likewise {x : Execution σ} {hooks : HookMap} (calm : x.Calm)
    (calm' : (x.rehook hooks).Calm) (stricter : x.schema.Stricter hooks) {type : TypeDef}
    (inner : x.schema.Inner type) (parent : Outcome) (path : Path) :
    ∀ (nodes : List Node) {r r' : Run σ}, Level (Below path) r r' →
    Likewise (x.schema.Bars hooks) (fun hit => Datum.MembersOff hit path) r r'
      (x.watchSelections type parent path nodes r)
      (Direct.selections (x.rehook hooks) type parent path nodes r')
  | [], r, r', level => by
    rw [Execution.watchSelections, Direct.selections]
    exact .pure level.store level.bare fun _ => .nil
  | n :: rest, r, r', level => by
    rw [Execution.watchSelections, Direct.selections]
    refine .both (Datum.members_monotone path) (Datum.members_monotone path)
      (fun _ _ _ _ _ first more => first.append more)
      (selection_likewise calm calm' stricter inner parent path n level) fun _ _ store bare => ?_
    have keeps := (Direct.selection_mirrors calm.built inner parent path n (.refl x _) r
      { r with marks := [] } ⟨rfl, rfl, level.free⟩).2
    rw [Records.selection x type parent path n r] at keeps
    exact selections_likewise calm calm' stricter inner parent path rest
      ⟨store, bare, fun q below => (keeps q).trans (level.free q below)⟩

end

end RowGraph
