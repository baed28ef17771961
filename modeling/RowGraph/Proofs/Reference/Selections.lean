import RowGraph.Proofs.Reference.Description
import RowGraph.Proofs.Reference.Links
/-!
Selections with and without marks. A field of an object that is not the root takes all the marks that
its resolver has set; one of the root leaves at most marks for elements of its own list. Main
statement: below the root every selection is as it is without marks.
-/

namespace RowGraph

open Resolve

variable {σ ε α β : Type}

-- What the marks are like after a field has had its turn.
structure Restored (resolver : Resolver) (here : Path) (r s : Run σ) : Prop where
  other : ∀ q, (∀ k, q ≠ here ++ [.index k]) → markAt s.marks q = markAt r.marks q
  keeps : resolver.Local → Keeps r s

-- A computation that goes on with what another one has given.
def Exec.continued (w : Except ResponseError α × Run σ) (f : α → Exec σ β) :
    Except ResponseError β × Run σ :=
  match w with
  | (.ok a, s) => f a s
  | (.error e, s) => (.error e, s)

theorem Exec.continued_eq (x : Exec σ α) (f : α → Exec σ β) (r : Run σ) :
    continued (x r) f = (x >>= f) r := by
  rw [bind_apply]
  rcases x r with ⟨_ | _, _⟩ <;> rfl

-- Arguments are read, or fail, whatever the state.
theorem Execution.arguments_read (x : Execution σ) (f : FieldDef) (head : FieldHead) :
    (∃ a, ∀ r : Run σ, x.arguments f head r = (.ok a, r)) ∨
      ∃ e, ∀ r : Run σ, x.arguments f head r = (.error e, r) := by
  unfold arguments
  cases x.givenArguments head.arguments with
  | ok a => exact .inl ⟨_, fun _ => rfl⟩
  | error e => exact .inr ⟨e, fun _ => rfl⟩

-- A list whose elements find the marks of their links, where nothing else waits.
theorem Direct.list_mirrors {c : Catalog} (item : TypeExpr) (nonNull : Bool) (loc : Location)
    {object object' : Complete.ObjectData σ}
    (shows : ∀ t o q, c.type? item.name = some t → Mirrors False (Below q) (object t o q) (object' t o q))
    {here : Path} {links : List Link} {r s s' : Run σ} (store : s'.store = s.store)
    (bare : s'.marks = []) (free : ∀ q, Below here q → markAt r.marks q = none)
    (marked : Marked here loc 0 links r s) :
    let v := Complete.outcome c object loc (.list item nonNull) here
      (some (.list (links.map Link.outcome))) s
    Mirrored False s s' v (complete c object' loc (.list item nonNull) here (.elements links) s') ∧
      (∀ q, (∀ k, q ≠ here ++ [.index k]) → markAt v.2.marks q = markAt r.marks q) ∧
      (item.nullable = true ∨ (∀ link ∈ links, ∃ o, link = .row o) → Keeps r v.2) := by
  have waits := marked.waits free
  have bodies (q : Path) (o : Outcome) := Mirrors.outcome shows loc q (some o)
  obtain ⟨elements, others, own⟩ :=
    elements_mirrors item.nullable bodies links 0 store bare (marked.inside free) waits
  unfold Complete.outcome complete
  simp only [map_apply]
  refine ⟨elements.map_result _, fun q away => ?_, fun complete q => ?_⟩
  · exact (others q fun k _ => away _).trans (marked.other q fun k _ => away _)
  · by_cases here : ∃ k < links.length, q = here ++ [.index (0 + k)]
    · obtain ⟨k, before, rfl⟩ := here
      rw [free _ (.snoc _ _)]
      rcases own k before with gone | ⟨strict, same⟩
      · exact gone
      · have rows := complete.resolve_left (by simp [strict])
        obtain ⟨o, found⟩ := rows _ (List.getElem_mem before)
        rw [same, waits k _ (List.getElem?_eq_getElem before), found]
        rfl
    · have away : ∀ k < links.length, q ≠ _ ++ [.index (0 + k)] :=
        fun k before same => here ⟨k, before, same⟩
      exact (others q away).trans (marked.other q away)

theorem Passes.completes {s : Schema} (grounded : s.Grounded) {type : TypeDef}
    (known : s.catalog.type? type.name = some type) {f : FieldDef}
    (declared : type.field? f.name = some f) {resolver : Resolver}
    (resolves : FieldMap.get? s.resolvers type.name f.name = some resolver)
    {object object' : Complete.ObjectData σ}
    (objects : ∀ t o q, s.Inner t → Mirrors False (Below q) (object t o q) (object' t o q))
    {here : Path} {loc : Location} {r r' : Run σ} (level : Level (Below here) r r')
    {w : Except ResponseError (Option Outcome) × Run σ} {w' : Except ResponseError Delivery × Run σ}
    (passes : Passes resolver here loc r r' w w') :
    let v := Exec.continued w (Complete.outcome s.catalog object loc f.type here)
    Mirrored False r r' v (Exec.continued w' (Direct.complete s.catalog object' loc f.type here)) ∧
      Restored resolver here r v.2 := by
  have shows (t : TypeDef) (o : Outcome) (q : Path) (found : s.catalog.type? f.type.name = some t) :
      Mirrors False (Below q) (object t o q) (object' t o q) :=
    objects t o q (grounded.inner_of_field known declared resolves found)
  cases passes with
  | @plain result t t' mirrored keeps =>
    cases result with
    | error e =>
      refine ⟨⟨rfl, mirrored.store, mirrored.bare, mirrored.notes⟩, ?_, fun _ => keeps⟩
      exact fun q _ => keeps q
    | ok o =>
      obtain ⟨later, keeps'⟩ := Mirrors.outcome shows loc here o t t' (level.keep mirrored keeps)
      have both : Keeps r (Complete.outcome s.catalog object loc f.type here o t).2 :=
        fun q => (keeps' q).trans (keeps q)
      exact ⟨mirrored.trans later, fun q _ => both q, fun _ => both⟩
  | @list links shape table required t t' shaped kind rows mirrored marked =>
    obtain ⟨item, nonNull, listed⟩ : ∃ item nonNull, f.type = .list item nonNull :=
      ⟨_, _, FieldShape.classify_references (grounded.classified known declared resolves shaped) kind⟩
    have lenient (marks : resolver.Marks) (local_ : resolver.Local) : item.nullable = true := by
      rcases marks with lenient | ⟨_, _, rfl⟩
      · obtain ⟨item', _, same, nullable⟩ := grounded.lenient known declared resolves lenient
        obtain ⟨rfl, _⟩ := TypeExpr.list.inj (listed.symm.trans same)
        exact nullable
      · cases local_
    rw [listed] at shows ⊢
    obtain ⟨elements, others, keeps⟩ := Direct.list_mirrors item nonNull loc shows mirrored.store
      mirrored.bare level.free marked
    refine ⟨mirrored.trans elements, others, fun local_ => keeps ?_⟩
    by_cases marks : resolver.Marks
    · exact .inl (lenient marks local_)
    · exact .inr fun link member => (rows link member).resolve_right marks

namespace Direct

variable {x x' : Execution σ}

-- The value of a field, before its guard has a look at it.
theorem value_mirrors (grounded : x.schema.Grounded) (schema : x'.schema = x.schema)
    (backend : x'.backend = x.backend) {type : TypeDef}
    (known : x.schema.catalog.type? type.name = some type) {f : FieldDef}
    (declared : type.field? f.name = some f) {object object' : Complete.ObjectData σ}
    (objects : ∀ t o q, x.schema.Inner t → Mirrors False (Below q) (object t o q) (object' t o q))
    (parent : Outcome) (here : Path) (loc : Location) (arguments : Arguments) {r r' : Run σ}
    (level : Level (Below here) r r') :
    let w := (x.declaredField type.name f.name here loc arguments parent >>=
      Complete.outcome x.schema.catalog object loc f.type here) r
    Mirrored False r r' w ((declaredField x' type.name f.name loc arguments parent >>=
        complete x.schema.catalog object' loc f.type here) r') ∧
      (∀ q, (∀ k, q ≠ here ++ [.index k]) → markAt w.2.marks q = markAt r.marks q) ∧
      (x.schema.Inner type → Keeps r w.2) := by
  cases resolves : FieldMap.get? x.schema.resolvers type.name f.name with
  | none =>
    unfold Execution.declaredField declaredField
    rw [schema, resolves, bind_assoc, bind_assoc]
    obtain ⟨mirrored, keeps⟩ := (Mirrors.runHooks type.name f.name loc arguments
      ((FieldMap.get? x.schema.hooks type.name f.name).getD [])).bind (fun _ =>
        Mirrors.nothing object object' x.schema.catalog loc f.type here)
      r r' level
    exact ⟨mirrored, fun q _ => keeps q, fun _ => keeps⟩
  | some resolver =>
    have passes := declaredField_conveys here loc schema backend resolves arguments
      parent r r' (level.mono fun _ absurd => absurd.elim)
    obtain ⟨mirrored, restored⟩ := passes.completes grounded known declared resolves objects level
    rw [Exec.continued_eq] at mirrored restored
    rw [Exec.continued_eq] at mirrored
    exact ⟨mirrored, restored.other,
      fun inner => restored.keeps (grounded.local_of_inner inner resolves)⟩

theorem field_mirrors (grounded : x.schema.Grounded) {type : TypeDef}
    (known : x.schema.catalog.type? type.name = some type) {f : FieldDef}
    (declared : type.field? f.name = some f) {head : FieldHead} (kin : Kin x x' head.arguments)
    {object object' : Complete.ObjectData σ}
    (objects : ∀ t o q, x.schema.Inner t → Mirrors False (Below q) (object t o q) (object' t o q))
    (parent : Outcome) (path : Path) {r r' : Run σ}
    (level : Level (Below (path ++ [.field head.key])) r r') :
    let w := x.field type parent path head object f r
    Mirrored False r r' w (field x' type parent path head object' f r') ∧
      (∀ q, (∀ k, q ≠ path ++ [.field head.key] ++ [.index k]) →
        markAt w.2.marks q = markAt r.marks q) ∧ (x.schema.Inner type → Keeps r w.2) := by
  unfold Execution.field field
  rw [kin.arguments, kin.schema, bind_apply, bind_apply]
  rcases x.arguments_read f head with ⟨a, read⟩ | ⟨e, read⟩
  · rw [read, read]
    obtain ⟨mirrored, others, inner⟩ := value_mirrors grounded kin.schema kin.backend known declared
      objects parent (path ++ [.field head.key]) head.loc a level
    obtain ⟨guarded, keeps⟩ := mirrored.guard (path ++ [.field head.key]) f.type.nullable
    exact ⟨guarded, fun q away => (keeps q).trans (others q away),
      fun inside q => (keeps q).trans (inner inside q)⟩
  · rw [read, read]
    exact ⟨.idle level _, fun _ _ => rfl, fun _ _ => rfl⟩

mutual

theorem selection_mirrors {x x' : Execution σ} (built : x.schema.Built) {type : TypeDef}
    (inner : x.schema.Inner type) (parent : Outcome) (path : Path) : ∀ n : Node,
    Kin x x' n.arguments →
    Mirrors False (Below path) (x.selection type parent path n) (selection x' type parent path n)
  | .group condition _ children, kin => by
    rw [Execution.selection, selection]
    split
    · exact selections_mirrors built inner parent path children kin
    · exact .pure []
  | .field head children, kin => by
    have aside (y : Execution σ) (same : y.schema = x.schema) : y.entrance? type head.name = none := by
      rw [Execution.entrance?, same, inner.entrances built]
      rfl
    rw [Execution.selection, selection, aside x rfl, aside x' kin.schema]
    split
    · exact .pure _
    · cases declared : type.field? head.name with
      | none => exact .pure []
      | some f =>
        have named : f.name = head.name := by simpa using List.find?_some declared
        refine .bind (fun r r' level => ?_) fun d => .pure _
        have below : Level (Below (path ++ [.field head.key])) r r' :=
          level.mono fun q => (Below.snoc path (.field head.key)).trans
        obtain ⟨mirrored, _, keeps⟩ := field_mirrors built.grounded inner.known (named ▸ declared)
          kin.left (fun t o q inside =>
            (selections_mirrors built inside o q children kin.right).map Datum.ofResults)
          parent path below
        exact ⟨mirrored, keeps inner⟩

theorem selections_mirrors {x x' : Execution σ} (built : x.schema.Built) {type : TypeDef}
    (inner : x.schema.Inner type) (parent : Outcome) (path : Path) : ∀ nodes : List Node,
    Kin x x' (Node.argumentsAll nodes) →
    Mirrors False (Below path) (x.selections type parent path nodes) (selections x' type parent path nodes)
  | [], _ => by
    rw [Execution.selections, selections]
    exact .pure []
  | n :: rest, kin => by
    rw [Execution.selections, selections]
    refine (selection_mirrors built inner parent path n kin.left).bind fun results => ?_
    exact (selections_mirrors built inner parent path rest kin.right).bind fun more => .pure _

end

end Direct

end RowGraph
