import RowGraph.Proofs.Listing.Fields
import RowGraph.Proofs.Placement.Ways
import RowGraph.Proofs.Schema.Pieces
/-!
Lists of references, next to single references. Main statement: wherever an execution comes to a
column that holds a list of references, the field shows what each element is as a reference by itself,
at its own index if the items may be null; if they may not be null, the first element that leads to
no row fails the field.
-/

namespace RowGraph

namespace Resolve

-- What a stored value comes to as a single reference.
def single (store : Memory) (column table : String) (required entry : Bool) (v : Value) :
    Except GraphError (Option Outcome) :=
  if v.isNullish then
    if required then .error (.missingReference column) else .ok none
  else
    match RowId.ofValue? v with
    | none => .error (.invalidReference column v.kindName)
    | some id =>
      match store.get? ⟨table, id⟩ with
      | some e => .ok (some (e.outcome entry))
      | none => .error (.danglingReference table id)

theorem follow_single (column table : String) (required entry : Bool) (v : Value) (r : Run Memory) :
    follow Memory.backend column table entry required (present? v) r =
      (.ok (.of (single r.store column table required entry v)), r) := by
  unfold present? single
  cases v.isNullish with
  | true => cases required <;> rfl
  | false =>
    cases asked : RowId.ofValue? v with
    | none =>
      simp [follow, referencedId, asked]
      rfl
    | some id =>
      simp only [Bool.false_eq_true, if_false]
      rw [follow_id asked]
      cases r.store.get? ⟨table, id⟩ <;> rfl

theorem followAll_single (column table : String) (required entry : Bool) (items : List Value)
    (r : Run Memory) :
    followAll Memory.backend column table entry required items r =
      (.ok (items.map fun v => .of (single r.store column table required entry v)), r) := by
  induction items with
  | nil => rfl
  | cons v rest ih =>
    rw [followAll, bind_apply, follow_single]
    simp only
    rw [bind_apply, ih]
    rfl

-- It is what the column shows of a row that holds this value alone.
theorem reference_single (column table : String) (required entry : Bool) (v : Value) (here : Path)
    (loc : Location) (r : Run Memory) :
    reference Memory.backend column ⟨.reference table, required, entry⟩ here loc (.row [(column, v)]) r =
      (single r.store column table required entry v, r) := by
  have held : stored? [(column, v)] column = present? v := by
    simp [stored?, present?, Row.column?, Assoc.lookup]
  unfold reference
  rw [parentRow_bind]
  simp only
  rw [held, bind_apply, follow_single]
  cases single r.store column table required entry v with
  | error e => rfl
  | ok o => cases o <;> rfl

-- A list of references goes by what its elements are, all of which are looked up first.
theorem reference_list {column table : String} {shape : FieldShape} {required : Bool}
    (kind : shape.kind = .referenceList table required) {row : Row} {items : List Value}
    (held : stored? row column = some (.array items)) (here : Path) (loc : Location)
    (r : Run Memory) :
    reference Memory.backend column shape here loc (.row row) r =
      ((some ∘ .list) <$> linkElements here loc required 0
        (items.map fun v => .of (single r.store column table required shape.entry v)) :
        Resolving Memory (Option Outcome)) r := by
  unfold reference
  rw [parentRow_bind, kind]
  simp only
  rw [held]
  simp only
  rw [bind_apply, followAll_single, map_eq_pure_bind]
  rfl

theorem follow_asks (column table : String) (required entry : Bool) (v : Value)
    (r : Run (Diary Memory)) : ∃ link n,
      follow Memory.backend.noted column table entry required (present? v) r =
        (.ok link, { r with store := n }) ∧
      n.keys = r.store.keys ++ (RowId.ofValue? v).toList.map (Key.mk table) := by
  cases asked : RowId.ofValue? v with
  | some id =>
    have read : referencedId column v = .ok id := by
      unfold referencedId
      rw [asked]
    rw [present?_id asked]
    let n : Diary Memory :=
      ⟨r.store.store, r.store.events ++ [.got ⟨table, id⟩ (.ok (r.store.store.get? ⟨table, id⟩))]⟩
    have fetched : fetch Memory.backend.noted ⟨table, id⟩ r =
        (.ok (r.store.store.get? ⟨table, id⟩), { r with store := n }) := rfl
    have keys : n.keys = r.store.keys ++ [⟨table, id⟩] := List.filterMap_append
    simp only [follow, read]
    rw [bind_apply, fetched]
    cases r.store.store.get? ⟨table, id⟩ with
    | some e => exact ⟨_, n, rfl, keys⟩
    | none => exact ⟨_, n, rfl, keys⟩
  | none =>
    have unread : referencedId column v = .error (.invalidReference column v.kindName) := by
      unfold referencedId
      rw [asked]
    unfold present?
    split
    · exact ⟨_, r.store, rfl, (List.append_nil _).symm⟩
    · simp only [follow, unread]
      exact ⟨_, r.store, rfl, (List.append_nil _).symm⟩

theorem followAll_asks (column table : String) (required entry : Bool) (items : List Value)
    (r : Run (Diary Memory)) : ∃ links n,
      followAll Memory.backend.noted column table entry required items r =
        (.ok links, { r with store := n }) ∧
      n.keys = r.store.keys ++ (items.filterMap RowId.ofValue?).map (Key.mk table) := by
  induction items generalizing r with
  | nil => exact ⟨[], r.store, rfl, (List.append_nil _).symm⟩
  | cons v rest ih =>
    obtain ⟨link, n, ran, keys⟩ := follow_asks column table required entry v r
    obtain ⟨links, n', ran', keys'⟩ := ih { r with store := n }
    refine ⟨link :: links, n', ?_, ?_⟩
    · rw [followAll, bind_apply, ran]
      simp only
      rw [bind_apply, ran']
      rfl
    · rw [keys', keys, List.append_assoc, ← List.map_append, List.filterMap_cons]
      cases RowId.ofValue? v <;> rfl

-- Each id among the elements is asked for once, in the order of the list.
theorem reference_asks {column table : String} {shape : FieldShape} {required : Bool}
    (kind : shape.kind = .referenceList table required) {row : Row} {items : List Value}
    (held : stored? row column = some (.array items)) (here : Path) (loc : Location)
    (r : Run (Diary Memory)) :
    (reference Memory.backend.noted column shape here loc (.row row) r).2.store.keys =
      r.store.keys ++ (items.filterMap RowId.ofValue?).map (Key.mk table) := by
  obtain ⟨links, n, ran, keys⟩ := followAll_asks column table required shape.entry items r
  unfold reference
  rw [parentRow_bind, kind]
  simp only
  rw [held]
  simp only
  rw [bind_apply, ran]
  simp only
  rw [placed_idle (linkElements_idle here loc required links 0)]
  exact keys

-- Where a row is needed, a value without one has an error.
theorem single_required (store : Memory) (column table : String) (entry : Bool) (v : Value) :
    single store column table true entry v ≠ .ok none := by
  unfold single
  split
  · exact fun absurd => nomatch absurd
  · split
    · exact fun absurd => nomatch absurd
    · split <;> exact fun absurd => nomatch absurd

-- The first element without a row fails a list that needs a row for each.
theorem whole_first {r : Value → Except GraphError (Option Outcome)} {items : List Value} {i : Nat}
    {v : Value} {e : GraphError} (there : items[i]? = some v) (failed : r v = .error e)
    (before : ∀ j < i, ∀ v', items[j]? = some v' → ∃ o, r v' = .ok (some o)) :
    whole true (items.map fun v => .of (r v)) = .error e := by
  induction items generalizing i with
  | nil => cases there
  | cons first rest ih =>
    cases i with
    | zero =>
      obtain rfl := Option.some.inj there
      rw [List.map_cons, failed]
      rfl
    | succ i =>
      obtain ⟨o, row⟩ := before 0 (Nat.succ_pos i) first rfl
      have later := ih there fun j below v' found => before (j + 1) (by omega) v' found
      rw [List.map_cons, row]
      change (whole true _).map _ = _
      rw [later]
      rfl

theorem links_rows {r : Value → Except GraphError (Option Outcome)} {items : List Value}
    {os : List Outcome} (rows : List.Forall₂ (fun v o => r v = .ok (some o)) items os) :
    (items.map fun v => Link.of (r v)) = os.map .row := by
  induction rows with
  | nil => rfl
  | cons row _ ih =>
    rw [List.map_cons, List.map_cons, row, ih]
    rfl

theorem linkElements_rows {σ : Type} (here : Path) (loc : Location) (required : Bool) (os : List Outcome)
    (index : Nat) (r : Run σ) :
    linkElements here loc required index (os.map .row) r = (.ok os, r) := by
  induction os generalizing index with
  | nil => rfl
  | cons o rest ih =>
    rw [List.map_cons, linkElements, bind_apply, ih]
    rfl

end Resolve

open Resolve

-- A field shows the list of references in a column of its row element by element: each is what it
-- comes to as a reference by itself.
structure Execution.Elementwise (x : Execution Memory) (m : Moment Memory) (head : FieldHead)
    (f : FieldDef) (children : List Node) (column table : String) (shape : FieldShape)
    (required : Bool) (row : Row) (r : Value → Except GraphError (Option Outcome)) (t : TypeDef) :
    Prop where
  type : f.type = .list (.named f.type.name required) f.type.nonNull
  shown : x.schema.catalog.type? f.type.name = some t
  single : ∀ v here loc run, run.store = m.run.store →
    reference Memory.backend column ⟨.reference table, required, shape.entry⟩ here loc
      (.row [(column, v)]) run = (r v, run)
  absent : stored? row column = none → x.Shows m head f children
    (if f.type.nonNull then .error ((GraphError.missingReference column).raisedAt head.loc)
      else .ok none, [])
  other : ∀ v, stored? row column = some v → (∀ items, v ≠ .array items) → x.Shows m head f children
    (.error ((GraphError.invalidReference column v.kindName).raisedAt head.loc), [])
  -- Items that may be null: every element is itself or null, and the errors come in their order.
  lenient : ∀ items, stored? row column = some (.array items) → required = false →
    let linked := items.mapIdx fun i v =>
      x.linkedAt t children head.loc m.run.store (m.element head i) (r v)
    x.Shows m head f children (.ok (some (.list (linked.map (·.1)))), linked.flatMap (·.2))
  placed : ∀ i v, ∀ e ∈ (x.linkedAt t children head.loc m.run.store (m.element head i) (r v)).2,
    m.element head i <+: e.path
  -- Items that may not be null: the first element without a row fails the field.
  broken : ∀ items, stored? row column = some (.array items) → required = true →
    ∀ (i : Nat) v e, items[i]? = some v → r v = .error e →
      (∀ j < i, ∀ v', items[j]? = some v' → ∃ o, r v' = .ok (some o)) →
      x.Shows m head f children (.error (e.raisedAt head.loc), [])
  rows : ∀ items, stored? row column = some (.array items) → required = true →
    ∀ os, List.Forall₂ (fun v o => r v = .ok (some o)) items os →
      let shown := Exec.oneByOne (os.mapIdx fun i o =>
        x.rowAt t children m.run.store false (m.element head i) o)
      x.Shows m head f children (shown.1.map (some ∘ .list), shown.2)
  -- Nothing waits anywhere that has not waited before.
  marks : Keeps m.run (x.selection m.type m.parent m.path (.field head children) m.run).2
  asks : ∀ items, stored? row column = some (.array items) → ∀ here loc run,
    (reference Memory.backend.noted column shape here loc (.row row) run).2.store.keys =
      run.store.keys ++ (items.filterMap RowId.ofValue?).map (Key.mk table)

namespace Execution

section

variable {x : Execution Memory} (memory : x.backend = Memory.backend) {m : Moment Memory} {row : Row}
  (parent : m.parent = .row row) {column : String} {shape : FieldShape}

include memory parent

theorem resolver_reference (here : Path) (loc : Location) (arguments : Arguments) :
    x.resolver here loc arguments m.parent (.reference column shape) =
      reference Memory.backend column shape here loc (.row row) := by
  unfold resolver
  rw [memory, parent]

-- The list of links that the column holds, with the marks of those that have no row.
theorem resolver_references {table : String} {required : Bool}
    (kind : shape.kind = .referenceList table required) {items : List Value}
    (held : stored? row column = some (.array items)) (here : Path) (loc : Location)
    (arguments : Arguments) (r : Run Memory) {r' : Run Memory}
    {result : Except GraphError (List Outcome)} (made : linkElements here loc required 0 (items.map fun v =>
      .of (single r.store column table required shape.entry v)) r = (result, r')) :
    x.resolver here loc arguments m.parent (.reference column shape) r =
      (result.map (some ∘ .list), r') := by
  rw [resolver_reference memory parent, reference_list kind held, map_apply, made]

end

section

variable {x : Execution Memory} (calm : x.Calm) (memory : x.backend = Memory.backend)
  {m : Moment Memory} {head : FieldHead} {f : FieldDef} {arguments : Arguments} {column : String}
  {shape : FieldShape} (invokes : x.Invokes m head f arguments (.reference column shape)) {row : Row}
  (parent : m.parent = .row row) {table : String} {required : Bool}
  (kind : shape.kind = .referenceList table required)
  (type : f.type = .list (.named f.type.name required) shape.nonNull) {children : List Node}

include calm memory invokes parent kind

include type in
theorem absent_shows (absent : stored? row column = none) : x.Shows m head f children
    (if f.type.nonNull then .error ((GraphError.missingReference column).raisedAt head.loc)
      else .ok none, []) := by
  have nonNull : f.type.nonNull = shape.nonNull := by rw [type]; rfl
  rw [nonNull]
  refine invokes.shows calm.built fun calls => ?_
  have ran : x.resolver (m.path ++ [.field head.key]) head.loc arguments m.parent
      (.reference column shape) { m.run with calls } =
        (if shape.nonNull then .error (.missingReference column) else .ok none,
          { m.run with calls }) := by
    rw [resolver_reference memory parent]
    unfold reference
    rw [parentRow_bind, kind]
    simp only
    rw [absent]
    cases shape.nonNull <;> rfl
  cases needed : shape.nonNull with
  | true =>
    rw [needed] at ran
    rw [served_error ran]
    exact .idle _ _
  | false =>
    rw [needed] at ran type
    rw [served_ok ran, type]
    exact .idle _ _

theorem other_shows {v : Value} (held : stored? row column = some v)
    (other : ∀ items, v ≠ .array items) : x.Shows m head f children
      (.error ((GraphError.invalidReference column v.kindName).raisedAt head.loc), []) := by
  refine invokes.shows calm.built fun calls => ?_
  have ran : x.resolver (m.path ++ [.field head.key]) head.loc arguments m.parent
      (.reference column shape) { m.run with calls } =
        (.error (.invalidReference column v.kindName), { m.run with calls }) := by
    rw [resolver_reference memory parent]
    unfold reference
    rw [parentRow_bind, kind]
    simp only
    rw [held]
    cases v with
    | array items => exact absurd rfl (other items)
    | _ => rfl
  rw [served_error ran]
  exact .idle _ _

theorem broken_shows {items : List Value} (held : stored? row column = some (.array items))
    (strict : required = true) {i : Nat} {v : Value} {e : GraphError}
    (there : items[i]? = some v)
    (failed : single m.run.store column table required shape.entry v = .error e)
    (before : ∀ j < i, ∀ v', items[j]? = some v' →
      ∃ o, single m.run.store column table required shape.entry v' = .ok (some o)) :
    x.Shows m head f children (.error (e.raisedAt head.loc), []) := by
  subst strict
  refine invokes.shows calm.built fun calls => ?_
  have full : ∀ link ∈ items.map (fun v => Link.of
      (single m.run.store column table true shape.entry v)), link ≠ .empty := by
    intro link member
    obtain ⟨v, _, rfl⟩ := List.mem_map.mp member
    have needed := single_required m.run.store column table shape.entry v
    match single m.run.store column table true shape.entry v, needed with
    | .ok (some o), _ => exact fun absurd => nomatch absurd
    | .error e, _ => exact fun absurd => nomatch absurd
  have made := linkElements_whole (m.path ++ [.field head.key]) head.loc _ 0 full { m.run with calls }
  rw [whole_first there failed before] at made
  have resolved := resolver_references memory parent kind held _ _ arguments { m.run with calls } made
  rw [served_error resolved]
  exact .idle _ _

section

variable {t : TypeDef} {fields : List FieldDef} (body : t.body = .object fields)
  (found : x.schema.catalog.type? f.type.name = some t) (inner : x.schema.Inner t)
  (free : ∀ q, Below (m.path ++ [.field head.key]) q → markAt m.run.marks q = none)
  {items : List Value} (held : stored? row column = some (.array items))

include type body found inner free held

theorem lenient_shows (lenient : required = false) :
    let linked := items.mapIdx fun i v => x.linkedAt t children head.loc m.run.store
      (m.element head i) (single m.run.store column table required shape.entry v)
    x.Shows m head f children (.ok (some (.list (linked.map (·.1)))), linked.flatMap (·.2)) := by
  subst lenient
  intro linked
  refine invokes.shows calm.built fun calls => ?_
  obtain ⟨marks, ran, marked⟩ := linkElements_marked (m.path ++ [.field head.key]) head.loc
    (items.map fun v => .of (single m.run.store column table false shape.entry v)) 0
    { m.run with calls }
  have resolved := resolver_references memory parent kind held _ _ arguments { m.run with calls } ran
  rw [served_ok resolved, type]
  have yields := calm.list_yields body found inner children marked
    (fun i q below => free q ((Below.snoc _ _).trans below)) (fun i _ _ => free _ (.snoc _ _))
    (show true = !false from rfl) shape.nonNull
  rw [Direct.oneByOne_linked] at yields
  exact yields

theorem rows_shows (strict : required = true) {os : List Outcome}
    (rows : List.Forall₂ (fun v o =>
      single m.run.store column table required shape.entry v = .ok (some o)) items os) :
    let shown := Exec.oneByOne (os.mapIdx fun i o =>
      x.rowAt t children m.run.store false (m.element head i) o)
    x.Shows m head f children (shown.1.map (some ∘ .list), shown.2) := by
  subst strict
  intro shown
  refine invokes.shows calm.built fun calls => ?_
  have made := linkElements_rows (m.path ++ [.field head.key]) head.loc true os 0 { m.run with calls }
  rw [← links_rows rows] at made
  have resolved := resolver_references memory parent kind held _ _ arguments { m.run with calls } made
  rw [served_ok resolved, type]
  have marked : Marked (m.path ++ [.field head.key]) head.loc 0 (os.map .row) { m.run with calls }
      { m.run with calls } := .ofRows (fun link member => by
    obtain ⟨o, _, rfl⟩ := List.mem_map.mp member
    exact ⟨o, rfl⟩) _
  have yields := calm.list_yields body found inner children marked
    (fun i q below => free q ((Below.snoc _ _).trans below)) (fun i _ _ => free _ (.snoc _ _))
    (show false = !true from rfl) shape.nonNull
  have same : (os.map Link.row).map Link.outcome = os := by
    rw [List.map_map]
    exact List.map_id os
  rw [same, Direct.oneByOne_rows] at yields
  exact yields

end

end

-- A field of an object below the root leaves the marks as it has found them.
theorem Invokes.keeps {x : Execution Memory} (calm : x.Calm) {m : Moment Memory} {head : FieldHead}
    {f : FieldDef} {arguments : Arguments} {resolver : Resolver}
    (invokes : x.Invokes m head f arguments resolver) (inner : x.schema.Inner m.type)
    (free : ∀ q, Below (m.path ++ [.field head.key]) q → markAt m.run.marks q = none)
    (children : List Node) :
    Keeps m.run (x.selection m.type m.parent m.path (.field head children) m.run).2 := by
  have declared : m.type.field? f.name = some f := by
    rw [invokes.named]
    exact invokes.declared
  have level : Level (Below (m.path ++ [.field head.key])) m.run { store := m.run.store } :=
    ⟨rfl, rfl, free⟩
  obtain ⟨_, _, keeps⟩ := Direct.field_mirrors calm.built.grounded inner.known declared
    (Kin.refl x head.arguments) (fun t o q inside =>
      (Direct.selections_mirrors calm.built inside o q children (Kin.refl x _)).map Datum.ofResults)
    m.parent m.path level
  rw [invokes.selection calm.built, map_apply]
  exact keeps inner

end Execution

-- Wherever an execution comes to a list of references, it shows it element by element.
theorem references_elementwise {x : Execution Memory} (built : x.schema.Built)
    (memory : x.backend = Memory.backend) {root : TypeDef} {kind : OperationKind}
    (known : (x.schema.catalog.root? kind).bind x.schema.catalog.type? = some root)
    {nodes : List Node} {start : Memory} {m : Moment Memory} (reaches : x.Reaches root nodes start m)
    {head : FieldHead} {f : FieldDef} {arguments : Arguments} {column table : String}
    {shape : FieldShape} {required : Bool} (lists : shape.kind = .referenceList table required)
    (invokes : x.Invokes m head f arguments (.reference column shape)) {row : Row}
    (parent : m.parent = .row row) (children : List Node) :
    ∃ t, x.Elementwise m head f children column table shape required row
      (single m.run.store column table required shape.entry) t := by
  have calm : x.Calm := ⟨built, memory ▸ Memory.still⟩
  obtain ⟨_, _, rooted⟩ := Option.bind_eq_some_iff.mp known
  have inside : x.schema.Inner m.type ∧ Listed m.path m.run.marks := by
    cases calm.reaches_sound (Catalog.type?_name rooted) reaches with
    | root _ top _ _ => exact nomatch parent.symm.trans (reaches.top top)
    | inner inner _ listed => exact ⟨inner, listed⟩
  have free (q : Path) (below : Below (m.path ++ [.field head.key]) q) :
      markAt m.run.marks q = none := by
    obtain ⟨s, rest, rfl⟩ := below
    exact inside.2.below (.field head.key) (List.cons_ne_nil s rest)
  have grounded := built.grounded
  have resolves := invokes.resolves
  have classified := grounded.classified inside.1.known invokes.declared resolves rfl
  obtain ⟨_, t, fields, found, body, inner⟩ := grounded.rows inside.1.known invokes.declared resolves
    rfl (by simp [lists])
  have type := FieldShape.classify_references classified lists
  have nonNull := FieldShape.classify_nonNull classified
  refine ⟨t, type, found, ?_, ?_, ?_, ?_, ?_, ?_, ?_, ?_, ?_⟩
  · exact fun v here loc run same => same ▸ reference_single column table required shape.entry v here
      loc run
  · exact Execution.absent_shows calm memory invokes parent lists (nonNull ▸ type)
  · exact fun v held => Execution.other_shows calm memory invokes parent lists held
  · exact fun items held => Execution.lenient_shows calm memory invokes parent lists (nonNull ▸ type)
      body found inner free held
  · exact fun i v => Execution.linkedAt_placed built inner children head.loc m.run.store _ _
  · exact fun items held strict i v e => Execution.broken_shows calm memory invokes parent lists held
      strict
  · exact fun items held strict os => Execution.rows_shows calm memory invokes parent lists
      (nonNull ▸ type) body found inner free held strict
  · exact invokes.keeps calm inside.1 free children
  · exact fun items held here loc run => reference_asks lists held here loc run

-- A course that asks for a book twice, for no book, for something that is no id, and for a book that is
-- not there.
def courses : String :=
  Overview.ask "type Query" ["course(id: ID!): Course"] ++
    Overview.ask "type Course" ["books: [Book]"] ++ Overview.ask "type Book" ["title: String"]

def bookList : List Value := [.string "1", .null, .bool true, .string "9", .int 1]

def coursesStore : Memory :=
  (Memory.empty.commit ⟨[], [
    .set ⟨"Course", ⟨"1"⟩⟩ (Row.ofColumns [("books", .array bookList)]),
    .set ⟨"Book", ⟨"1"⟩⟩ (Row.ofColumns [("title", .string "Dune")])]⟩).2

def courseShape : FieldShape := ⟨.reference "Course", false, false⟩

def booksShape : FieldShape := ⟨.referenceList "Book" false, false, false⟩

def courseHead : FieldHead := ⟨none, "course", [⟨"id", .string "1", ⟨1, 10⟩, ⟨1, 14⟩⟩], [], ⟨1, 3⟩⟩

def booksHead : FieldHead := ⟨none, "books", [], [], ⟨1, 21⟩⟩

def shownDune : Outcome := .row [("id", .string "1"), ("title", .string "Dune")]

theorem courses_references_elementwise : ∃ (s : Schema) (root t : TypeDef) (f : FieldDef)
    (m : Moment Memory) (row : Row), s.Built ∧
    let x : Execution Memory := ⟨s, Memory.backend, [], []⟩
    let r := single coursesStore "books" "Book" false false
    x.Reaches root [.field courseHead [.field booksHead [titleNode]]] coursesStore m ∧
      m.path = [.field "course"] ∧
      x.Elementwise m booksHead f [titleNode] "books" "Book" booksShape false row r t ∧
      bookList.map r = [.ok (some shownDune), .ok none, .error (.invalidReference "books" "bool"),
        .error (.danglingReference "Book" ⟨"9"⟩), .ok (some shownDune)] ∧
      ∃ linked : List (Datum × List ResponseError), linked.length = 5 ∧
        x.Shows m booksHead f [titleNode] (.ok (some (.list (linked.map (·.1)))),
          linked.flatMap (·.2)) := by
  have ready : (Session.build {} courses []).toOption.any (fun s =>
      ((s.catalog.root? .query).bind s.catalog.type?).any fun root =>
      (s.catalog.type? "Course").any fun t =>
      (root.field? "course").any fun f => (t.field? "books").any fun g => decide (
        f.type.name = "Course" ∧ s.showsEntries "Course" = false ∧
        FieldMap.get? s.resolvers root.name "course" = some (.root "id" courseShape) ∧
        FieldMap.get? s.resolvers t.name "books" = some (.reference "books" booksShape) ∧
        g.arguments = [])) = true := by
    rw [Session.build_toList]
    simp only [courses, String.toList_append, Overview.toList_ask]
    decide +kernel
  have held : (coursesStore.get? ⟨"Course", ⟨"1"⟩⟩).bind (fun e => stored? e.shownRow "books") =
      some (.array bookList) := rfl
  obtain ⟨s, made, ready⟩ := (Option.any_eq_true _ _).mp ready
  obtain ⟨root, known, ready⟩ := (Option.any_eq_true _ _).mp ready
  obtain ⟨t, found, ready⟩ := (Option.any_eq_true _ _).mp ready
  obtain ⟨f, declared, ready⟩ := (Option.any_eq_true _ _).mp ready
  obtain ⟨g, declared', ready⟩ := (Option.any_eq_true _ _).mp ready
  obtain ⟨course, plainly, resolves, resolves', bare⟩ := of_decide_eq_true ready
  obtain ⟨e, stored, held⟩ := Option.bind_eq_some_iff.mp held
  let x : Execution Memory := ⟨s, Memory.backend, [], []⟩
  let start : Moment Memory := ⟨root, .root, [], [], { store := coursesStore }⟩
  have accepted := ok_of_toOption made
  have plain : x.Plain :=
    ⟨⟨{}, courses, [], accepted⟩, Schema.hookless_of_build accepted, Memory.still⟩
  have given : x.givenArguments courseHead.arguments = .ok [("id", .string "1")] := rfl
  have asked : argument? (Execution.withDefaults f.arguments [("id", .string "1")]) "id" =
      some (.string "1") := rfl
  have way : x.Way "Course" ⟨"Course", ⟨"1"⟩⟩ start courseHead [] :=
    .intro declared course resolves given (.row rfl rfl asked rfl)
  obtain ⟨_, _, rooted⟩ := Option.bind_eq_some_iff.mp known
  have named := Catalog.type?_name rooted
  have unspoilt : Execution.Unspoilt start courseHead [] := fun _ inside => absurd rfl inside
  have sound : start.Sound x root coursesStore := plain.reaches_sound named .refl
  obtain ⟨t', found', inner, arrival⟩ := way.arrival plain rfl named stored
  obtain rfl := Option.some.inj (found.symm.trans found')
  obtain ⟨r, leads, kept⟩ :=
    arrival.leads plain sound unspoilt inner [.field booksHead [titleNode]] []
  rw [plainly] at leads
  let inside : Moment Memory :=
    ⟨t, e.outcome false, [.field "course"], [.field booksHead [titleNode]], r⟩
  have reaches : x.Reaches root [.field courseHead [.field booksHead [titleNode]]] coursesStore
      inside := .single leads
  have invokes : x.Invokes inside booksHead g [] (.reference "books" booksShape) := by
    refine ⟨declared', resolves', ?_, ?_⟩
    · unfold Execution.withDefaults
      rw [bare]
      rfl
    · unfold Schema.refusal?
      rw [plain.hookless]
      rfl
  obtain ⟨t', elementwise⟩ :=
    references_elementwise plain.built rfl known reaches rfl invokes rfl [titleNode]
  rw [show inside.run.store = coursesStore from kept] at elementwise
  exact ⟨s, root, t', g, inside, e.shownRow, plain.built, reaches, rfl, elementwise, rfl, _, rfl,
    elementwise.lenient bookList held rfl⟩

end RowGraph
