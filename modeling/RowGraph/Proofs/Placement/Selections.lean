import RowGraph.Proofs.Placement.Pairing
import RowGraph.Proofs.Schema.Inner
/-!
One selection at two positions. What a resolver reads does not depend on where its field stands, so
by induction over the selection two executions of one schema on one store stay in agreement, whatever
operations they belong to. Main statement: alike selections on one object show the same at both
positions, with the same errors.
-/

namespace RowGraph

variable {σ α : Type}

-- Reading leaves the store as it is.
def Backend.Still (b : Backend σ) : Prop := ∀ key s, (b.get key s).2 = s

theorem Memory.still : Memory.backend.Still := fun _ _ => rfl

theorem Backend.Still.fetch {b : Backend σ} (still : b.Still) (key : Key) (r : Run σ) :
    Resolve.fetch b key r = ((b.get key r.store).1.mapError .store, r) := by
  obtain ⟨store, marks, absorbed, caught, calls⟩ := r
  have kept := still key store
  unfold Resolve.fetch
  split
  · rename_i e s found
    rw [found] at kept ⊢
    obtain rfl : s = store := kept
    rfl
  · rename_i e s found
    rw [found] at kept ⊢
    obtain rfl : s = store := kept
    rfl

namespace Pairing.Parallel

variable {k : Pairing} {b : Backend σ}

theorem fetch (still : b.Still) (key : Key) :
    k.Parallel (· = ·) (Resolve.fetch b key) (Resolve.fetch b key) := by
  intro r r' abreast
  rw [still.fetch, still.fetch, abreast.store]
  refine .idle abreast ?_
  cases (b.get key r.store).1 with
  | ok e => exact .ok e
  | error e => exact .error rfl

theorem nullElement {u : Path} (inward : Inward u) (loc : Location) (index : Nat)
    (e : Option GraphError) :
    k.Parallel (σ := σ) (· = ·) (Resolve.nullElement (k.here ++ u) loc index e)
      (Resolve.nullElement (k.there ++ u) (k.move loc) index e) := by
  intro r r' abreast
  rw [nullElement_apply, nullElement_apply, List.append_assoc, List.append_assoc]
  refine .setMark abreast (inward.append _) ?_ ()
  cases e with
  | none => exact .none
  | some e => exact .some ⟨rfl, rfl, rfl, .unplaced⟩

theorem follow (still : b.Still) (column table : String) (entry required : Bool) (v : Option Value) :
    k.Parallel (· = ·) (Resolve.follow b column table entry required v)
      (Resolve.follow b column table entry required v) := by
  unfold Resolve.follow
  split
  · exact pure _
  · split
    · exact pure _
    · refine (fetch still _).bind fun e? => ?_
      cases e? <;> exact pure _

theorem followAll (still : b.Still) (column table : String) (entry required : Bool)
    (vs : List Value) : k.Parallel (· = ·) (Resolve.followAll b column table entry required vs)
      (Resolve.followAll b column table entry required vs) := by
  induction vs with
  | nil => exact pure _
  | cons v rest ih =>
    exact (follow still column table entry required _).bind fun link => ih.bind fun links => pure _

theorem linkElements {u : Path} (inward : Inward u) (loc : Location) (required : Bool)
    (links : List Resolve.Link) (index : Nat) :
    k.Parallel (σ := σ) (· = ·) (Resolve.linkElements (k.here ++ u) loc required index links)
      (Resolve.linkElements (k.there ++ u) (k.move loc) required index links) := by
  induction links generalizing index with
  | nil => exact pure _
  | cons link rest ih =>
    cases link with
    | row o => exact (ih (index + 1)).bind fun os => pure _
    | empty =>
      exact (nullElement inward loc index none).bind fun _ => (ih (index + 1)).bind fun os => pure _
    | broken e =>
      unfold Resolve.linkElements
      cases required with
      | true => exact throw rfl
      | false =>
        refine (nullElement inward loc index (some e)).bind fun _ => ?_
        exact (ih (index + 1)).bind fun os => pure _

theorem lifted {E : GraphError → GraphError → Prop} (same : ∀ e, E e e) (y : Except GraphError α) :
    k.Parallel (σ := σ) E (liftM y) (liftM y) := by
  refine lift ?_
  cases y with
  | ok a => exact .ok a
  | error e => exact .error (same e)

theorem reference (still : b.Still) (column : String) (shape : FieldShape) {u : Path}
    (inward : Inward u) (loc : Location) (parent : Outcome) :
    k.Parallel (· = ·) (Resolve.reference b column shape (k.here ++ u) loc parent)
      (Resolve.reference b column shape (k.there ++ u) (k.move loc) parent) := by
  refine (lifted (fun _ => rfl) _).bind fun row => ?_
  split
  · exact throw rfl
  · refine (follow still _ _ _ _ _).bind fun link => ?_
    cases link with
    | row o => exact pure _
    | empty => exact pure _
    | broken e => exact throw rfl
  · split
    · split
      · exact throw rfl
      · exact pure _
    · refine (followAll still _ _ _ _ _).bind fun links => ?_
      exact (linkElements inward loc _ links 0).bind fun os => pure _
    · exact throw rfl

end Pairing.Parallel

-- The same error, found elsewhere in the text.
def ResponseError.moved (move : Location → Location) (e : ResponseError) : ResponseError :=
  { e with locations := e.locations.map move }

mutual

-- One text in two places: the same keys, fields and conditions, and arguments that come to the same
-- in the two operations.
inductive Copies (x x' : Execution σ) (move : Location → Location) : Node → Node → Prop where
  | field {head head' : FieldHead} {children children' : List Node} :
      head'.key = head.key → head'.name = head.name → head'.loc = move head.loc →
      x'.givenArguments head'.arguments =
        (x.givenArguments head.arguments).mapError (ResponseError.moved move) →
      CopiesAll x x' move children children' →
      Copies x x' move (.field head children) (.field head' children')
  | group {condition : Option String} {directives directives' : List DirectiveCall}
      {children children' : List Node} : CopiesAll x x' move children children' →
      Copies x x' move (.group condition directives children) (.group condition directives' children')

inductive CopiesAll (x x' : Execution σ) (move : Location → Location) :
    List Node → List Node → Prop where
  | nil : CopiesAll x x' move [] []
  | cons {n n' : Node} {rest rest' : List Node} : Copies x x' move n n' →
      CopiesAll x x' move rest rest' → CopiesAll x x' move (n :: rest) (n' :: rest')

end

theorem Pairing.Parallel.arguments {k : Pairing} {x x' : Execution σ} (f : FieldDef)
    {head head' : FieldHead}
    (given : x'.givenArguments head'.arguments =
      (x.givenArguments head.arguments).mapError (ResponseError.moved k.move)) :
    k.Parallel k.Echo (x.arguments f head) (x'.arguments f head') := by
  refine bind (lift ?_) fun given => pure _
  rw [given]
  cases same : x.givenArguments head.arguments with
  | ok a => exact .ok a
  | error e =>
    refine .error ⟨rfl, rfl, rfl, ?_⟩
    change k.Faces e.path e.path
    rw [(Execution.givenArguments_error same).path]
    exact .unplaced

theorem ResponseError.moved_id (e : ResponseError) : e.moved id = e := by
  unfold moved
  rw [List.map_id]

-- A text is its own copy.
mutual

theorem Copies.refl (x : Execution σ) : ∀ n : Node, Copies x x id n n
  | .field head children => by
    refine .field rfl rfl rfl ?_ (CopiesAll.refl x children)
    cases x.givenArguments head.arguments with
    | ok a => rfl
    | error e => exact congrArg Except.error e.moved_id.symm
  | .group condition directives children => .group (CopiesAll.refl x children)

theorem CopiesAll.refl (x : Execution σ) : ∀ nodes : List Node, CopiesAll x x id nodes nodes
  | [] => .nil
  | n :: rest => .cons (Copies.refl x n) (CopiesAll.refl x rest)

end

-- A schema that was made from a document, on a store that reading does not change.
structure Execution.Calm (x : Execution σ) : Prop where
  built : x.schema.Built
  still : x.backend.Still

-- A schema without hooks, on such a store.
structure Execution.Plain (x : Execution σ) : Prop where
  built : x.schema.Built
  hookless : x.schema.Hookless
  still : x.backend.Still

theorem Execution.Plain.calm {x : Execution σ} (plain : x.Plain) : x.Calm :=
  ⟨plain.built, plain.still⟩

theorem Execution.Plain.declaredField_apply {x : Execution σ} (plain : x.Plain)
    (type field : String) (here : Path) (loc : Location) (arguments : Arguments) (parent : Outcome) :
    x.declaredField type field here loc arguments parent =
      match FieldMap.get? x.schema.resolvers type field with
      | some r => ExceptT.adapt (fun e : GraphError => e.raisedAt loc)
          (x.resolver here loc arguments parent r)
      | none => pure none := by
  unfold Execution.declaredField
  rw [plain.hookless]
  rfl

-- Two operations on one such schema and one store.
structure Twins (x x' : Execution σ) : Prop extends x.Plain where
  schema : x'.schema = x.schema
  backend : x'.backend = x.backend

theorem Execution.Plain.twin {x : Execution σ} (plain : x.Plain) : Twins x x :=
  { plain with schema := rfl, backend := rfl }

theorem Twins.plain' {x x' : Execution σ} (twins : Twins x x') : x'.Plain :=
  ⟨twins.schema ▸ twins.built, twins.schema ▸ twins.hookless, twins.backend ▸ twins.still⟩

namespace Twins

open Pairing

variable {x x' : Execution σ} (twins : Twins x x') {k : Pairing}

include twins

theorem resolver {r : Resolver} (local_ : r.Local) {u : Path} (inward : Inward u) (loc : Location)
    (arguments : Arguments) (parent : Outcome) :
    k.Parallel (· = ·) (x.resolver (k.here ++ u) loc arguments parent r)
      (x'.resolver (k.there ++ u) (k.move loc) arguments parent r) := by
  cases local_ with
  | column name => exact .lifted (fun _ => rfl) _
  | reference column shape =>
    change k.Parallel _ _ (Resolve.reference x'.backend column shape _ _ parent)
    rw [twins.backend]
    exact .reference twins.still column shape inward loc parent
  | value => exact .lifted (fun _ => rfl) _

theorem declaredField {r : Resolver} {type field : String} (local_ : r.Local)
    (resolves : FieldMap.get? x.schema.resolvers type field = some r) {u : Path}
    (inward : Inward u) (loc : Location) (arguments : Arguments) (parent : Outcome) :
    k.Parallel k.Echo (x.declaredField type field (k.here ++ u) loc arguments parent)
      (x'.declaredField type field (k.there ++ u) (k.move loc) arguments parent) := by
  unfold Execution.declaredField
  rw [twins.schema, twins.hookless, resolves]
  refine Parallel.bind (.pure ()) fun _ => ?_
  refine Parallel.adapt ?_ (twins.resolver local_ inward loc arguments parent)
  rintro e _ rfl
  exact ⟨rfl, rfl, rfl, .unplaced⟩

theorem field {type : TypeDef} (inner : x.schema.Inner type) {f : FieldDef}
    (declared : type.field? f.name = some f) {head head' : FieldHead} (key : head'.key = head.key)
    (loc : head'.loc = k.move head.loc)
    (given : x'.givenArguments head'.arguments =
      (x.givenArguments head.arguments).mapError (ResponseError.moved k.move))
    {object object' : Complete.ObjectData σ} (objects : ∀ t o v, x.schema.Inner t → Inward v →
      k.Parallel k.Echo (object t o (k.here ++ v)) (object' t o (k.there ++ v)))
    (parent : Outcome) {u : Path} (there : u = [] ∨ Inward u) :
    k.Parallel k.Echo (x.field type parent (k.here ++ u) head object f)
      (x'.field type parent (k.there ++ u) head' object' f) := by
  unfold Execution.field
  simp only [List.append_assoc, key, loc]
  have inward : Inward (u ++ [.field head.key]) := by
    rcases there with rfl | inward
    · exact ⟨head.key, [], rfl⟩
    · exact inward.append _
  have enters : k.Enters (u ++ [.field head.key]) := Inward.enters inward
  refine (Parallel.arguments f given).bind fun arguments => ?_
  refine .guard enters _ ?_
  have grounded := twins.built.grounded
  cases resolves : FieldMap.get? x.schema.resolvers type.name f.name with
  | none =>
    unfold Execution.declaredField
    rw [twins.schema, twins.hookless, resolves]
    exact .nothing _ _ _ enters
  | some r =>
    have local_ := grounded.local_of_inner inner resolves
    refine (twins.declaredField local_ resolves inward _ arguments parent).bind fun o => ?_
    rw [twins.schema]
    refine .outcome (fun t o v known inward => objects t o v ?_ inward) _ inward o
    exact grounded.inner_of_field inner.known declared resolves known

end Twins

open Pairing

mutual

theorem Twins.selection {x x' : Execution σ} (twins : Twins x x') {k : Pairing} {type : TypeDef}
    (inner : x.schema.Inner type) (parent : Outcome) {u : Path} (there : u = [] ∨ Inward u) :
    ∀ {n n' : Node}, Copies x x' k.move n n' →
    k.Parallel k.Echo (x.selection type parent (k.here ++ u) n)
      (x'.selection type parent (k.there ++ u) n')
  | .group condition _ children, _, copies => by
    cases copies with
    | group copies =>
      rw [Execution.selection, Execution.selection]
      split
      · exact twins.selections inner parent there copies
      · exact .pure []
  | .field head children, _, copies => by
    cases copies with
    | @field _ head' _ children' key name loc given copies =>
      rw [Execution.selection, Execution.selection, name, key]
      split
      · exact .pure _
      · have aside : x.entrance? type head.name = none := by
          rw [Execution.entrance?, inner.entrances twins.built]
          rfl
        have aside' : x'.entrance? type head.name = none := by
          rw [Execution.entrance?, twins.schema]
          exact aside
        rw [aside, aside']
        cases declared : type.field? head.name with
        | none => exact .pure []
        | some f =>
          have named : f.name = head.name := by simpa using List.find?_some declared
          refine (twins.field inner (named ▸ declared) key loc given ?_ parent there).bind
            fun d => .pure _
          intro t o v inner inward
          exact (twins.selections inner o (.inr inward) copies).map _

theorem Twins.selections {x x' : Execution σ} (twins : Twins x x') {k : Pairing} {type : TypeDef}
    (inner : x.schema.Inner type) (parent : Outcome) {u : Path} (there : u = [] ∨ Inward u) :
    ∀ {nodes nodes' : List Node}, CopiesAll x x' k.move nodes nodes' →
    k.Parallel k.Echo (x.selections type parent (k.here ++ u) nodes)
      (x'.selections type parent (k.there ++ u) nodes')
  | [], _, copies => by
    cases copies with
    | nil =>
      rw [Execution.selections, Execution.selections]
      exact .pure []
  | n :: rest, _, copies => by
    cases copies with
    | cons first later =>
      rw [Execution.selections, Execution.selections]
      refine (twins.selection inner parent there first).bind fun results => ?_
      exact (twins.selections inner parent there later).bind fun more => .pure _

end

end RowGraph
