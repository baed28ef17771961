import RowGraph.Proofs.Concurrency.Optimistic
import RowGraph.Proofs.Mutation.Atomic
import RowGraph.Proofs.Schema.Entries
/-!
Queries do not write. No field leads from one object to the root of the mutations, and no field of
the query root is a mutation field, even where both roots are one type. Main statement: an operation
that starts at the query root invokes no mutation field.
-/

namespace RowGraph

variable {σ : Type}

namespace Document

theorem mapM_ok {ε : Type} {f : α → Except ε β} {as : List α} {bs : List β}
    (accepted : as.mapM f = .ok bs) {a : α} (member : a ∈ as) : ∃ b, f a = .ok b := by
  obtain ⟨b, _, made⟩ := mem_of_forall₂ (mapM_forall₂ accepted) member
  exact ⟨b, made⟩

-- A field of the query root finds its rows by an id.
theorem rootField_argument {d : Document} {f : FieldDef} {e : Derived}
    (accepted : d.rootField f = .ok e) : ∃ a ∈ f.arguments, a.type.name = "ID" := by
  have argued {list : Bool} {argument : String} (found : idArgument? f list = some argument) :
      ∃ a ∈ f.arguments, a.type.name = "ID" := by
    obtain ⟨a, first, _⟩ := Option.map_eq_some_iff.mp found
    have form := List.find?_some first
    simp only [Bool.and_eq_true, decide_eq_true_eq] at form
    exact ⟨a, List.mem_of_find?_eq_some first, form.1⟩
  obtain ⟨shape, _, accepted⟩ := bind_ok accepted
  simp only [bind, Except.bind] at accepted
  split at accepted
  · cases accepted
  · split at accepted
    · rename_i found
      exact argued found
    · cases accepted
  · split at accepted
    · rename_i found
      exact argued found
    · cases accepted

end Document

namespace Schema

-- A field that sends operations to the store.
def Writes (s : Schema) (type field : String) : Prop :=
  ∃ plan, FieldMap.get? s.resolvers type field = some (.mutation plan)

namespace Grounded

variable {s : Schema} (grounded : s.Grounded)

include grounded

-- The root of the mutations is not what a field can be of.
theorem kindOf_writes {type field : String} (writes : s.Writes type field) :
    s.document.kindOf type = none := by
  obtain ⟨plan, resolves⟩ := writes
  have plans := grounded.plans resolves
  obtain ⟨t, fields, _, declared, object, _, _⟩ := plans.declared
  have root : s.document.isRoot type = true := by
    unfold Document.isRoot
    rw [plans.root]
    simp
  rw [grounded.kindOf_object declared object, if_pos root]

-- What a field shows has no field that writes.
theorem shows_unwriting {type field inner : String} {t : TypeDef} {f : FieldDef} {r : Resolver}
    (known : s.catalog.type? type = some t) (declared : t.field? field = some f)
    (resolves : FieldMap.get? s.resolvers type field = some r) :
    ¬ s.Writes f.type.name inner := by
  intro writes
  obtain ⟨kind, shown, _⟩ := grounded.kindOf_field known declared resolves
  cases (grounded.kindOf_writes writes).symm.trans shown

-- What takes an id takes no input object.
theorem rooted_unwriting {f : FieldDef} {e : Document.Derived} {plan : MutationPlan}
    (rooted : s.document.rootField f = .ok e) : ¬ s.document.Mutates f plan := by
  intro mutates
  obtain ⟨a, asked, scalar⟩ := Document.rootField_argument rooted
  obtain ⟨argument, inputs, single, _, _, input, _⟩ := mutates.input
  obtain rfl := List.mem_singleton.mp (single ▸ asked)
  obtain ⟨t, declared, _⟩ := Option.bind_eq_some_iff.mp input
  have other := grounded.type?_own declared
  rw [scalar] at other
  cases other

-- A field of the query root takes an id, and no field that writes does.
theorem query_unwriting (field : String) : ¬ s.Writes s.document.query field := by
  rintro ⟨plan, resolves⟩
  obtain ⟨_, fields, f, declared, object, last, mutates⟩ := (grounded.plans resolves).declared
  obtain ⟨derived, derives, _⟩ := grounded.derived
  obtain ⟨roots, rooted, _⟩ := Document.bind_ok derives
  have own : (s.document.objectFields? s.document.query).getD [] = fields := by
    rw [Document.objectFields?, declared]
    simp [TypeDef.objectFields?, object]
  obtain ⟨e, accepted⟩ := Document.mapM_ok rooted (own ▸ (last?_some last).1)
  exact grounded.rooted_unwriting accepted mutates

end Grounded

end Schema

theorem Declared.served {x : Execution σ} {type field : String} {here : Path} {loc : Location}
    {arguments : Arguments} {parent o : Outcome} {r r' : Run σ}
    (declared : Declared x type field here loc arguments parent r (.ok (some o), r')) :
    ∃ resolver, FieldMap.get? x.schema.resolvers type field = some resolver := by
  generalize answer : (Except.ok (some o), r') = ran at declared
  cases declared with
  | refused => cases answer
  | unserved => cases answer
  | resolved _ served => exact ⟨_, served⟩

-- An object none of whose fields writes.
structure Unwriting (s : Schema) (t : TypeDef) : Prop where
  known : s.catalog.type? t.name = some t
  reads : ∀ field, ¬ s.Writes t.name field

theorem fits_unwriting {s : Schema} {type : TypeExpr}
    (reads : ∀ field, ¬ s.Writes type.name field) (o : Outcome) :
    Fits s.catalog (fun t _ => Unwriting s t) type o := by
  induction type generalizing o with
  | named name nonNull =>
    intro t found
    refine ⟨Catalog.type?_name found, fun field => ?_⟩
    rw [Catalog.name_of_type? found]
    exact reads field
  | list item nonNull ih =>
    intro _ _ i _
    exact ih reads i

-- Of all that was invoked nothing writes.
def Harmless (x : Execution σ) (α : Type) (_ : Path) (_ : Run σ) (w : Watch σ α) : Prop :=
  ∀ v ∈ Invocation.visitsOf w.seen, ∀ a, v.place.asked = some a → ¬ x.schema.Writes a.type a.field

namespace Harmless

variable {x : Execution σ}

theorem close {v : Visit} {r : Run σ} {w : Watch σ (Option Datum)} {p : Path}
    (own : ∀ a, v.place.asked = some a → ¬ x.schema.Writes a.type a.field)
    (inside : Harmless x _ p r w) : Harmless x _ p r (Watched.close v w) := by
  obtain ⟨v', closed⟩ := Watched.close_closed v w
  unfold Harmless
  rw [closed.seen, Invocation.visitsOf_position]
  intro u member
  rcases List.mem_cons.mp member with rfl | deeper
  · rw [closed.place]
    exact own
  · exact inside u deeper

theorem idle {α : Type} {p : Path} {r : Run σ} {w : Watch σ α}
    (seen : Invocation.visitsOf w.seen = []) : Harmless x α p r w := by
  unfold Harmless
  rw [seen]
  exact fun _ absurd => nomatch absurd

theorem steps : Steps (Harmless x) where
  give _ _ _ _ := idle rfl
  raise _ _ _ _ _ _ := idle rfl
  next _ _ _ _ _ _ _ first _ rest := by
    intro v member
    rw [Invocation.visitsOf_append] at member
    rcases List.mem_append.mp member with old | new
    · exact first v old
    · exact rest v new
  stop _ _ _ _ _ _ first _ := first
  atElement p i nullable body r inside := by
    obtain ⟨v, w, closes, unasked, found⟩ :=
      Watched.element_close (p ++ [.index i]) nullable body r
    have own (a : Asked) (asked : v.place.asked = some a) : ¬ x.schema.Writes a.type a.field := by
      rw [unasked] at asked
      cases asked
    rw [closes]
    rcases found with rfl | ⟨_, seen⟩
    · exact close (p := p) own inside
    · exact close (p := p) own (idle (by rw [seen]; rfl))

-- Nothing that is made of a field's value writes.
theorem outcome (grounded : x.schema.Grounded) {type : TypeDef} {parent : Outcome} {here p : Path}
    {loc : Location} {object : Watched.ObjectData σ} {f : FieldDef} {arguments : Arguments}
    {o : Option Outcome} {r r' : Run σ} (known : x.schema.catalog.type? type.name = some type)
    (field : type.field? f.name = some f)
    (objects : Objects (Harmless x) (fun _ t _ => Unwriting x.schema t) object)
    (declared : Declared x type.name f.name here loc arguments parent r (.ok o, r')) :
    Harmless x _ p r' (Watched.outcome x.schema.catalog object loc f.type p o r') := by
  refine steps.ofOutcome (c := x.schema.catalog) (fun _ _ _ _ _ _ _ ok => ok) objects loc f.type
    p o r' fun found same => ?_
  subst same
  -- A value has come out of a resolver, so the field is one that was derived.
  obtain ⟨resolver, served⟩ := declared.served
  exact fits_unwriting (fun inner => grounded.shows_unwriting known field served) found

theorem invocation (grounded : x.schema.Grounded) {type : TypeDef} {parent : Outcome} {p : Path}
    {key : String} {loc : Location} {object : Watched.ObjectData σ} {f : FieldDef}
    {arguments : Arguments} {r : Run σ} (unwriting : Unwriting x.schema type)
    (field : type.field? f.name = some f)
    (objects : Objects (Harmless x) (fun _ t _ => Unwriting x.schema t) object) :
    Harmless x _ p r
      (x.watchInvocation type parent (p ++ [.field key]) loc object f arguments r) := by
  have declared := x.declaredField_declared type.name f.name (p ++ [.field key]) loc arguments parent r
  have own {v : Visit} (asked : v.place.asked = some ⟨type.name, f.name, parent, arguments⟩)
      (a : Asked) (asked' : v.place.asked = some a) : ¬ x.schema.Writes a.type a.field := by
    obtain rfl := Option.some.inj (asked.symm.trans asked')
    exact unwriting.reads f.name
  unfold Execution.watchInvocation
  split
  · rename_i o r' ran
    rw [ran] at declared
    exact close (p := p) (own rfl) (outcome grounded unwriting.known field objects declared)
  · exact close (p := p) (own rfl) (idle rfl)

theorem law (grounded : x.schema.Grounded) :
    Law x (Harmless x) fun _ t _ => Unwriting x.schema t where
  toSteps := steps
  lasting _ _ _ _ _ _ _ ok := ok
  invocation _ _ _ _ _ _ _ _ _ ok field objects _ := invocation grounded ok field objects
  description _ _ p head f children r _ _ := by
    obtain ⟨_, stopped, left, seen⟩ := x.watchDescription_record p head f children r
    exact idle (by rw [seen]; rfl)

end Harmless

-- No field of the object that queries start at writes.
theorem Schema.Built.query_root {s : Schema} (built : s.Built) {root : TypeDef}
    (rooted : (s.catalog.root? .query).bind s.catalog.type? = some root) : Unwriting s root := by
  obtain ⟨name, named, found⟩ := Option.bind_eq_some_iff.mp rooted
  obtain rfl : s.document.query = name := by
    rw [built.grounded.catalog] at named
    exact Option.some.inj named
  refine ⟨Catalog.type?_name found, fun field => ?_⟩
  rw [Catalog.name_of_type? found]
  exact built.grounded.query_unwriting field

theorem Schema.Built.query_harmless {s : Schema} (built : s.Built) {b : Backend σ} {request : Request}
    {store : σ} {w : Watch σ (List (String × Datum))} {m : Request.Measured}
    (watched : s.watch? b request store = some w) (prepared : request.prepare s = .ok m)
    (query : m.operation.kind = .query) :
    ∀ v ∈ Invocation.visitsOf w.seen, ∀ a, v.place.asked = some a → ¬ s.Writes a.type a.field := by
  obtain ⟨m', root, prepared', rooted, rfl⟩ := Schema.watch?_some watched
  obtain rfl := Except.ok.inj (prepared.symm.trans prepared')
  let x : Execution σ := ⟨s, b, m.operation.variableDefs, request.values⟩
  have unwriting := built.query_root (query ▸ rooted)
  exact (Harmless.law (x := x) built.grounded).ofSelections m.nodes [] { store } unwriting

end RowGraph
