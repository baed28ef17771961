import RowGraph.Proofs.Mutation.Queries
import RowGraph.Proofs.Soundness.Outcomes
/-!
Where the objects of a query come from. Every row that a field is asked of was read from a table on
the way: it is shown as it is where the type is the table, and within its entry where the type wraps
the table. Main statement: this is a law, and so is that a column of a scalar type is answered with
what stands in it.
-/

namespace RowGraph

open Watched

variable {σ : Type}

-- What is asked of an outcome may be asked of its parts.
theorem fits_of_parts {c : Catalog} {Ok : TypeDef → Outcome → Prop} (Part : Outcome → Prop)
    {type : TypeExpr} (ok : ∀ t o, c.type? type.name = some t → Part o → Ok t o)
    (items : ∀ o os, Part o → itemsOf? o = some os → ∀ i ∈ os, Part i) {o : Outcome}
    (part : Part o) : Fits c Ok type o := by
  induction type generalizing o with
  | named name nonNull => exact fun t known => ok t o known part
  | list item nonNull ih => exact fun os listed i member => ih ok (items o os part listed i member)

namespace Schema

-- A row of a table in the form that a type shows it in.
inductive RowForm (s : Schema) (type : String) (e : Entry) : String → Row → Prop where
  | plain : s.document.kindOf type = some .table → RowForm s type e type e.shownRow
  | entry {table : String} : s.document.entryTable? type = some table →
      RowForm s type e table e.wrapped

-- A field that is of a scalar type and no list.
def Scalar (s : Schema) (type field : String) : Prop :=
  ∃ t f name nonNull leaf, s.catalog.type? type = some t ∧ t.field? field = some f ∧
    f.type = .named name nonNull ∧ s.catalog.type? name = some leaf ∧ leaf.body = .scalar

-- A column of a scalar type is answered with what stands in it, unless a hook refuses that.
def Answers (s : Schema) (a : Asked) (answer : Except ResponseError (Option Datum)) : Prop :=
  ∀ name d, s.Scalar a.type a.field → s.refusal? a.type a.field a.arguments = none →
    FieldMap.get? s.resolvers a.type a.field = some (.column name) →
    Resolve.column name a.parent = .ok (some (.leaf d)) → answer = .ok (some d)

end Schema

-- The row that a field is asked of was read since the start.
structure Founded (s : Schema) (b : Backend σ) (start now : σ) (v : Visit) : Prop where
  row : ∀ a row, v.place.asked = some a → a.parent = .row row →
    ∃ table e, Fetched b table start now e ∧ s.RowForm a.type e table row
  answers : ∀ a, v.place.asked = some a → s.Answers a v.answer

theorem Founded.remembered (s : Schema) (b : Backend σ) (start : σ) :
    Remembered b (Founded s b start) where
  unasked _ v unasked := by
    constructor
    · intro a row asked
      cases unasked.symm.trans asked
    · intro a asked
      cases unasked.symm.trans asked
  later _ _ v moves founded := by
    refine ⟨fun a row asked same => ?_, founded.answers⟩
    obtain ⟨table, e, fetched, form⟩ := founded.row a row asked same
    exact ⟨table, e, fetched.wider .refl moves, form⟩

-- An object of a type that nothing writes through, and if it is a row, one that was read.
structure Looked (x : Execution σ) (start now : σ) (t : TypeDef) (o : Outcome) : Prop where
  unwriting : Unwriting x.schema t
  since : Moves x.backend start now
  row : ∀ row, o = .row row →
    ∃ table e, Fetched x.backend table start now e ∧ x.schema.RowForm t.name e table row

theorem Looked.later {x : Execution σ} {start now after : σ} {t : TypeDef} {o : Outcome}
    (moves : Moves x.backend now after) (looked : Looked x start now t o) :
    Looked x start after t o := by
  refine ⟨looked.unwriting, looked.since.trans moves, fun row same => ?_⟩
  obtain ⟨table, e, fetched, form⟩ := looked.row row same
  exact ⟨table, e, fetched.wider .refl moves, form⟩

-- The rows that a shape asks for are in the form of its type.
theorem FieldShape.form {s : Schema} {type : TypeExpr} {shape : FieldShape} {table : String}
    (classified : classify s.document.lookup type = .ok shape) (named : shape.table? = some table)
    (e : Entry) : ∃ row, e.outcome shape.entry = .row row ∧ s.RowForm type.name e table row := by
  induction type generalizing shape with
  | named name nonNull =>
    unfold classify ofName at classified
    split at classified
    · rename_i kind
      obtain rfl := Except.ok.inj classified
      obtain rfl := Option.some.inj named
      exact ⟨_, rfl, .plain kind⟩
    · split at classified
      · rename_i wrapped
        obtain rfl := Except.ok.inj classified
        obtain rfl := Option.some.inj named
        exact ⟨_, rfl, .entry wrapped⟩
      · cases classified
    · obtain rfl := Except.ok.inj classified
      cases named
    all_goals cases classified
  | list item nonNull ih =>
    obtain ⟨inner, single, accepted⟩ := Document.bind_ok classified
    unfold listOf at accepted
    split at accepted
    · obtain rfl := Except.ok.inj accepted
      cases named
    · rename_i kind
      obtain rfl := Except.ok.inj accepted
      have inside : inner.table? = some table := by
        rw [table?, kind]
        exact named
      have formed := ih single inside
      exact formed
    · cases accepted

theorem FieldShape.table?_some {shape : FieldShape} (reference : shape.kind ≠ .scalar) :
    ∃ table, shape.table? = some table := by
  unfold table?
  cases kind : shape.kind with
  | scalar => exact absurd kind reference
  | reference table => exact ⟨table, rfl⟩
  | referenceList table required => exact ⟨table, rfl⟩

-- What a root or a reference field delivers, or a list of it holds.
def Piece (b : Backend σ) (table : String) (entry : Bool) (s s' : σ) (o : Outcome) : Prop :=
  Delivers b table entry s s' o ∨ o = .leaf .null

theorem Piece.items {b : Backend σ} {table : String} {entry : Bool} {s s' : σ} {o : Outcome}
    {os : List Outcome} (piece : Piece b table entry s s' o) (listed : itemsOf? o = some os) :
    ∀ i ∈ os, Piece b table entry s s' i := by
  intro i member
  rcases piece with (⟨e, _, rfl⟩ | ⟨_, rfl, each⟩) | rfl
  · cases listed
  · obtain rfl := Option.some.inj listed
    exact (each i member).imp_left .inl
  · cases listed

theorem Piece.row {b : Backend σ} {table : String} {entry : Bool} {s s' : σ} {row : Row}
    (piece : Piece b table entry s s' (.row row)) :
    ∃ e : Entry, Fetched b table s s' e ∧ e.outcome entry = .row row := by
  rcases piece with (⟨e, fetched, same⟩ | ⟨_, absurd, _⟩) | absurd
  · exact ⟨e, fetched, same.symm⟩
  · cases absurd
  · cases absurd

-- A leaf has only leaves in it.
theorem leaf_items {o : Outcome} {os : List Outcome} (leaf : ∃ d, o = .leaf d)
    (listed : itemsOf? o = some os) : ∀ i ∈ os, ∃ d, i = .leaf d := by
  obtain ⟨d, rfl⟩ := leaf
  cases d with
  | list items =>
    obtain rfl := Option.some.inj listed
    intro i member
    obtain ⟨d, _, rfl⟩ := List.mem_map.mp member
    exact ⟨d, rfl⟩
  | _ => cases listed

theorem Resolve.column_leaf {name : String} {parent o : Outcome}
    (given : column name parent = .ok (some o)) : ∃ d, o = .leaf d := by
  obtain ⟨row, _, given⟩ := Document.bind_ok given
  split at given
  · obtain ⟨d, _, given⟩ := Document.bind_ok given
    exact ⟨d, (Option.some.inj (Except.ok.inj given)).symm⟩
  · cases given

theorem Entry.value_held (e : Entry) :
    Resolve.value (.row e.wrapped) = .ok (some (.row e.shownRow)) := by
  simp only [Resolve.value, Resolve.parentRow, bind, Except.bind, e.wrapped_value]

-- A row that gives a value is within its entry.
theorem Looked.entry {x : Execution σ} {start now : σ} {t : TypeDef} {parent o : Outcome}
    (grounded : x.schema.Grounded) (looked : Looked x start now t parent) {table : String}
    (wrapped : x.schema.document.entryTable? t.name = some table)
    (given : Resolve.value parent = .ok (some o)) :
    ∃ e, Fetched x.backend table start now e ∧ parent = .row e.wrapped := by
  obtain ⟨row, read, _⟩ := Document.bind_ok given
  obtain rfl : parent = .row row := by
    cases parent <;> cases read
    rfl
  obtain ⟨table', e, fetched, form⟩ := looked.row row rfl
  cases form with
  | plain kind => cases kind.symm.trans (grounded.kindOf_entry wrapped)
  | entry wrapped' =>
    obtain rfl := Option.some.inj (wrapped'.symm.trans wrapped)
    exact ⟨e, fetched, rfl⟩

namespace Declared

variable {x : Execution σ} {here : Path} {loc : Location} {arguments : Arguments}
  {parent : Outcome} {r r' : Run σ}

theorem looked (grounded : x.schema.Grounded) {type : TypeDef} {f : FieldDef} {o : Outcome} {start : σ}
    (parentLooked : Looked x start r.store type parent) (field : type.field? f.name = some f)
    (declared : Declared x type.name f.name here loc arguments parent r (.ok (some o), r')) :
    Fits x.schema.catalog (Looked x start r'.store) f.type o := by
  have known := parentLooked.unwriting.known
  have sent := declared.sends
  have since : Moves x.backend start r'.store := parentLooked.since.trans ⟨_, sent⟩
  generalize answer : (Except.ok (some o), r') = ran at declared
  cases declared with
  | refused => cases answer
  | unserved => cases answer
  | @resolved first r'' resolver result _ served steady ran resolved =>
    obtain ⟨same, rfl⟩ := Prod.mk.inj answer
    cases result with
    | error e => cases same
    | ok found =>
      obtain rfl := Except.ok.inj same
      have unwriting (t : TypeDef) (shown : x.schema.catalog.type? f.type.name = some t) :
          Unwriting x.schema t := by
        refine ⟨Catalog.type?_name shown, fun inner => ?_⟩
        rw [Catalog.name_of_type? shown]
        exact grounded.shows_unwriting known field served
      have rows {shape : FieldShape} {table : String} (shaped : resolver.shape? = some shape)
          (named : shape.table? = some table) :
          Fits x.schema.catalog (Looked x start r'.store) f.type o := by
        have delivers := resolved.delivers shape table o shaped named rfl
        have classified := grounded.classified known field served shaped
        refine fits_of_parts (Piece x.backend table shape.entry first.store r'.store)
          (fun t o shown part => ⟨unwriting t shown, since, ?_⟩)
          (fun _ _ part listed => part.items listed) (.inl delivers)
        rintro row rfl
        obtain ⟨e, fetched, form⟩ := part.row
        obtain ⟨row', same, formed⟩ := FieldShape.form classified named e
        obtain rfl : row' = row := Outcome.row.inj (same.symm.trans form)
        refine ⟨table, e, fetched.wider (parentLooked.since.trans steady.moves) .refl, ?_⟩
        rwa [Catalog.name_of_type? shown]
      have read {y : Except GraphError (Option Outcome)}
          (given : x.resolver here loc arguments parent resolver first =
            (liftM y : Resolving σ (Option Outcome)) first) : y = .ok (some o) := by
        rw [ran] at given
        cases y with
        | error e => cases given
        | ok found => exact (Prod.mk.inj given).1.symm
      have leaf (given : ∃ d, o = .leaf d) :
          Fits x.schema.catalog (Looked x start r'.store) f.type o := by
        refine fits_of_parts (fun o => ∃ d, o = .leaf d)
          (fun t o shown part => ⟨unwriting t shown, since, ?_⟩)
          (fun _ _ part listed => leaf_items part listed) given
        rintro row rfl
        obtain ⟨_, absurd⟩ := part
        cases absurd
      cases grounded.kinds known field served with
      | root _ reference =>
        obtain ⟨table, named⟩ := FieldShape.table?_some reference
        exact rows rfl named
      | reference _ reference =>
        obtain ⟨table, named⟩ := FieldShape.table?_some reference
        exact rows rfl named
      | column => exact leaf (Resolve.column_leaf (read rfl))
      | value =>
        have given := read (y := Resolve.value parent) rfl
        obtain ⟨e, fetched, rfl⟩ := parentLooked.entry grounded (grounded.value_held known field served) given
        rw [e.value_held] at given
        obtain rfl := Option.some.inj (Except.ok.inj given)
        have kind := grounded.kindOf_held (grounded.value_held known field served)
        refine fits_of_parts (· = .row e.shownRow)
          (fun t o shown part => ⟨unwriting t shown, since, ?_⟩)
          (fun _ _ part listed => by cases part; cases listed) rfl
        rintro row rfl
        cases part
        refine ⟨_, e, fetched.wider .refl ⟨_, sent⟩, ?_⟩
        rw [Catalog.name_of_type? shown]
        exact .plain kind
      | mutation => exact absurd ⟨_, served⟩ (parentLooked.unwriting.reads _)

end Declared

theorem Watched.Closed.answered {v v' : Visit} {w : Watch σ (Option Datum)} {d : Option Datum}
    (closed : Closed v w (close v w) v') (made : w.result = .ok d) : v'.answer = .ok d := by
  have seen := closed.seen
  unfold close at seen
  simp only [made] at seen
  obtain ⟨rfl, _⟩ := Invocation.position.inj (List.singleton_inj.mp seen)
  rfl

-- A leaf of a scalar type is shown as it is.
theorem Watched.outcome_scalar {c : Catalog} {object : ObjectData σ} {loc : Location} {name : String}
    {nonNull : Bool} {p : Path} {d : Datum} {r : Run σ} {leaf : TypeDef}
    (known : c.type? name = some leaf) (scalar : leaf.body = .scalar) :
    (outcome c object loc (.named name nonNull) p (some (.leaf d)) r).result = .ok (some d) := by
  unfold outcome
  rw [known]
  simp only [value, Complete.value, scalar]
  rfl

namespace Declared

variable {x : Execution σ} {here : Path} {loc : Location} {arguments : Arguments}
  {parent : Outcome} {r r' : Run σ} {type field : String}

theorem column {name : String} {result : Except ResponseError (Option Outcome)} {d : Datum}
    (declared : Declared x type field here loc arguments parent r (result, r'))
    (free : x.schema.refusal? type field arguments = none)
    (served : FieldMap.get? x.schema.resolvers type field = some (.column name))
    (given : Resolve.column name parent = .ok (some (.leaf d))) :
    result = .ok (some (.leaf d)) := by
  generalize answer : (result, r') = ran at declared
  cases declared with
  | refused refuses => cases free.symm.trans refuses
  | unserved none => cases served.symm.trans none
  | @resolved first _ _ _ _ served' _ ran _ =>
    obtain rfl := Option.some.inj (served.symm.trans served')
    obtain ⟨rfl, rfl⟩ := Prod.mk.inj answer
    have shown : x.resolver here loc arguments parent (.column name) first =
        (.ok (some (.leaf d)), first) := by
      unfold Execution.resolver
      simp only [given]
      rfl
    obtain ⟨rfl, _⟩ := Prod.mk.inj (shown.symm.trans ran)
    rfl

end Declared

namespace Founded

variable {x : Execution σ} {start : σ}

theorem invocation (grounded : x.schema.Grounded) {type : TypeDef} {parent : Outcome} {p : Path}
    {key : String} {loc : Location} {object : ObjectData σ} {f : FieldDef} {arguments : Arguments}
    {r : Run σ} (looked : Looked x start r.store type parent) (field : type.field? f.name = some f)
    (objects : Objects (Traces x (Founded x.schema x.backend start)) (Looked x start) object) :
    Traces x (Founded x.schema x.backend start) _ p r
      (x.watchInvocation type parent (p ++ [.field key]) loc object f arguments r) := by
  have declared := x.declaredField_declared type.name f.name (p ++ [.field key]) loc arguments parent r
  have founded {v v' : Visit} {w : Watch σ (Option Datum)}
      (asked : v.place.asked = some ⟨type.name, f.name, parent, arguments⟩)
      (moves : Moves x.backend r.store w.run.store)
      (closed : Closed v w (close v w) v')
      (answers : x.schema.Answers ⟨type.name, f.name, parent, arguments⟩ v'.answer) :
      Founded x.schema x.backend start w.run.store v' := by
    constructor
    · intro a row asked' same
      rw [closed.place, asked] at asked'
      obtain rfl := Option.some.inj asked'
      obtain ⟨table, e, fetched, form⟩ := looked.row row same
      exact ⟨table, e, fetched.wider .refl moves, form⟩
    · intro a asked'
      rw [closed.place, asked] at asked'
      obtain rfl := Option.some.inj asked'
      exact answers
  unfold Execution.watchInvocation
  split
  · rename_i o r' ran
    rw [ran] at declared
    have moves : Moves x.backend r.store r'.store := ⟨_, declared.sends⟩
    have inside : Traces x (Founded x.schema x.backend start) _ (p ++ [.field key]) r'
        (outcome x.schema.catalog object loc f.type (p ++ [.field key]) o r') := by
      refine (Traces.steps (Founded.remembered _ _ _)).ofOutcome
        (fun _ _ _ _ _ _ inside looked => looked.later inside.1) objects loc f.type _ o r'
        fun found same => ?_
      subst same
      exact declared.looked grounded looked field
    refine Traces.close (p := p) moves inside fun v' closed => ?_
    refine founded rfl (moves.trans inside.1) closed ?_
    rintro name d ⟨t, f', inner, nonNull, leaf, known, field', typed, found, scalar⟩ free served given
    obtain rfl := Option.some.inj (looked.unwriting.known.symm.trans known)
    obtain rfl := Option.some.inj (field.symm.trans field')
    obtain rfl := Except.ok.inj (declared.column free served given)
    refine closed.answered ?_
    rw [typed]
    exact outcome_scalar found scalar
  · rename_i e r' ran
    rw [ran] at declared
    have moves : Moves x.backend r.store r'.store := ⟨_, declared.sends⟩
    refine Traces.close (p := p) moves (Traces.idle rfl rfl) fun v' closed => ?_
    refine founded rfl moves closed ?_
    intro name d _ free served given
    cases declared.column free served given

end Founded

theorem origin_law {x : Execution σ} (grounded : x.schema.Grounded) (start : σ) :
    Law x (Traces x (Founded x.schema x.backend start)) (Looked x start) where
  toSteps := Traces.steps (Founded.remembered _ _ _)
  lasting _ _ _ _ _ _ inside looked := looked.later inside.1
  invocation _ _ _ _ _ _ _ _ _ looked field objects _ :=
    Founded.invocation grounded looked field objects
  description _ _ p head f children r _ _ := Traces.description p head f children r

theorem Schema.Built.query_founded {s : Schema} (built : s.Built) {b : Backend σ} {request : Request}
    {store : σ} {w : Watch σ (List (String × Datum))} {m : Request.Measured}
    (watched : s.watch? b request store = some w) (prepared : request.prepare s = .ok m)
    (query : m.operation.kind = .query) :
    ∀ v ∈ Invocation.visitsOf w.seen, Founded s b store w.run.store v := by
  obtain ⟨m', root, prepared', rooted, rfl⟩ := Schema.watch?_some watched
  obtain rfl := Except.ok.inj (prepared.symm.trans prepared')
  let x : Execution σ := ⟨s, b, m.operation.variableDefs, request.values⟩
  have unwriting := built.query_root (query ▸ rooted)
  have looked : Looked x store store root .root := ⟨unwriting, .refl, fun _ absurd => nomatch absurd⟩
  exact ((origin_law (x := x) built.grounded store).ofSelections m.nodes [] { store } looked).2

end RowGraph
