import RowGraph.Proofs.Execution.Uneventful
import RowGraph.Proofs.Language.Equality
import RowGraph.Proofs.Mutation.Atomic
import RowGraph.Proofs.Schema.Coverage
import RowGraph.Proofs.Value.Joined
/-!
What is written is what is read. A row is looked up under the id of the item that was written last,
and its columns are shown as their types can show them. Main statement: a query for the row by its
id shows the id as a text, the values that the item gave as they were written, and null for nullable
columns that the item did not give, without an error.
-/

namespace RowGraph

variable {σ : Type}

namespace Entry

theorem stored?_id (e : Entry) :
    Resolve.stored? e.shownRow idColumn = some (.string e.key.id.text) := by
  unfold Resolve.stored? shownRow
  rw [Row.column?_set, if_pos rfl]
  rfl

theorem stored?_other (e : Entry) {name : String} (other : name ≠ idColumn) :
    Resolve.stored? e.shownRow name = Resolve.stored? e.row name := by
  unfold Resolve.stored? shownRow
  rw [Row.column?_set, if_neg other]

end Entry

namespace Resolve

theorem column_row (name : String) (row : Row) : column name (.row row) =
    match stored? row name with
    | some v => v.toDatum.map (some ∘ .leaf)
    | none => .ok none := by
  unfold column
  rw [show parentRow (.row row) = pure row from rfl, pure_bind]
  cases stored? row name with
  | none => rfl
  | some v => cases made : v.toDatum <;> simp [made] <;> rfl

-- A nullable reference leads nowhere from a column without a value.
theorem reference_empty {b : Backend σ} {name : String} {shape : FieldShape} {row : Row}
    (rows : shape.kind ≠ .scalar) (nullable : shape.nonNull = false)
    (empty : stored? row name = none) (path : Path) (loc : Location) (r : Run σ) :
    reference b name shape path loc (.row row) r = (.ok none, r) := by
  unfold reference
  rw [parentRow_bind]
  cases kind : shape.kind with
  | scalar => exact absurd kind rows
  | reference table =>
    simp only [empty, follow, nullable]
    rfl
  | referenceList table required =>
    simp only [empty, nullable]
    rfl

end Resolve

namespace Commit

-- What an item says of a column can be shown by a field.
inductive Readable (c : Catalog) (item : Item) (f : FieldDef) : Prop where
  | id {name : String} {nonNull : Bool} {t : TypeDef} : f.name = idColumn →
      f.type = .named name nonNull → c.type? name = some t → t.body = .scalar → Readable c item f
  | given {d : Datum} {t : TypeDef} : f.name ≠ idColumn →
      Members.final? f.name (columns item) = some d → d ≠ .null → d.Exact →
      c.type? f.type.name = some t → t.isLeaf = true → c.Holds f.type d → Readable c item f
  | empty : f.name ≠ idColumn → (Members.final? f.name (columns item) = none ∨
      Members.final? f.name (columns item) = some .null) → f.type.nullable = true →
      Readable c item f

-- A column of the row of an item is shown as the item says.
inductive Shown (item : Item) (rid : RowId) (column : String) : Datum → Prop where
  | id : column = idColumn → Shown item rid column (.string rid.text)
  | given : column ≠ idColumn → Members.final? column (columns item) = some written →
      written.Shows d → Shown item rid column d
  | missing : column ≠ idColumn → Members.final? column (columns item) = none →
      Shown item rid column .null

theorem Shown.join {item : Item} {rid : RowId} {column : String} {a b : Datum}
    (left : Shown item rid column a) (right : Shown item rid column b) :
    Shown item rid column (a.join b) := by
  cases left with
  | id called =>
    cases right with
    | id => simpa [Datum.join] using Shown.id called
    | given other => exact absurd called other
    | missing other => exact absurd called other
  | given other final shows =>
    cases right with
    | id called => exact absurd called other
    | given _ final' shows' =>
      obtain rfl := Option.some.inj (final.symm.trans final')
      exact .given other final (shows.join shows')
    | missing _ absent => cases final.symm.trans absent
  | missing other absent =>
    cases right with
    | id called => exact absurd called other
    | given _ final _ => cases absent.symm.trans final
    | missing => simpa [Datum.join] using Shown.missing other absent

-- The row of an item is shown under the keys of the fields that are asked for, and under no other.
inductive ShowsRow (item : Item) (rid : RowId) (asked : List Choice) : Datum → Prop where
  | object {members : List (String × Datum)} : (members.map Prod.fst).Nodup →
      (∀ m ∈ members, m.1 ∈ asked.map Choice.key) →
      (∀ l ∈ asked, ∃ d, Members.get? l.key members = some d ∧ Shown item rid l.1.name d) →
      ShowsRow item rid asked (.object members)

theorem ShowsRow.ofResults {item : Item} {rid : RowId} {asked : List Choice}
    {results : List (String × Datum)}
    (agree : ∀ l ∈ asked, ∀ l' ∈ asked, l.key = l'.key → l.1.name = l'.1.name)
    (shown : List.Forall₂ (fun l m => m.1 = l.key ∧ Shown item rid l.1.name m.2) asked results) :
    ShowsRow item rid asked (Datum.ofResults results) := by
  have keys : asked.map Choice.key = results.map Prod.fst :=
    map_of_forall₂ shown fun _ _ both => both.1.symm
  have each (m) (member : m ∈ results) (l) (asks : l ∈ asked) (called : l.key = m.1) :
      Shown item rid l.1.name m.2 := by
    obtain ⟨l', asks', same, shows⟩ := mem_of_forall₂ shown.flip member
    rw [agree l asks l' asks' (called.trans same)]
    exact shows
  obtain ⟨members, made, distinct, inside, found⟩ := Datum.ofResults_members
    (P := fun key d => ∀ l ∈ asked, l.key = key → Shown item rid l.1.name d)
    (fun _ _ _ left right l asks called => (left l asks called).join (right l asks called)) each
  rw [made]
  refine .object distinct (fun m member => keys ▸ inside m member) fun l asks => ?_
  obtain ⟨m, member, called, _⟩ := mem_of_forall₂ shown asks
  obtain ⟨d, there, shows⟩ := found m member
  exact ⟨d, called ▸ there, shows l asks called.symm⟩

end Commit

namespace Schema

variable {s : Schema}

-- Without hooks nothing is refused.
theorem free_of_build {settings : Settings} {source : String}
    (made : Session.build settings source [] = .ok s) (type field : String)
    (arguments : Arguments) : s.refusal? type field arguments = none := by
  unfold refusal?
  rw [hookless_of_build made]
  rfl

-- A field of a table is served by its column, as a leaf value or as a reference.
theorem Built.table_resolver (built : s.Built) {t : TypeDef} {f : FieldDef}
    (rows : s.document.kindOf t.name = some .table) (known : s.catalog.type? t.name = some t)
    (declared : t.field? f.name = some f) :
    FieldMap.get? s.resolvers t.name f.name = some (.column f.name) ∨ ∃ shape,
      FieldMap.get? s.resolvers t.name f.name = some (.reference f.name shape) ∧
      FieldShape.classify s.document.lookup f.type = .ok shape ∧ shape.kind ≠ .scalar := by
  have grounded := built.grounded
  obtain ⟨source, _, accepted, _, _⟩ := built.finished
  obtain ⟨r, resolves⟩ : ∃ r, FieldMap.get? s.resolvers t.name f.name = some r := by
    obtain ⟨fields, inside⟩ := Document.table_declared (show s.document.isTable t.name = true from
      decide_eq_true rows)
    obtain ⟨t₀, listed, named, object⟩ := Document.mem_objects.mp inside
    have found := Document.find?_of_nodup grounded.named.nodup listed
    rw [named] at found
    obtain rfl := Option.some.inj ((grounded.type? found).symm.trans known)
    rw [TypeDef.field?_distinct object] at declared
    obtain ⟨f₀, last, same⟩ := Option.map_eq_some_iff.mp declared
    obtain ⟨member, called⟩ := last?_some last
    exact FieldMap.contains_iff.mp (grounded.resolved_iff.mpr
      ⟨fields, inside, f₀, member, of_decide_eq_true called⟩)
  obtain ⟨f₀, rfl, serves⟩ := grounded.meets known declared resolves
  have plays := serves.plays (Document.parted accepted)
  have other {role : Role} (playing : s.document.Plays t.name role) : role.kind? = some .table :=
    (Document.kindOf_plays accepted playing).symm.trans rows
  generalize named : t.name = type at serves resolves plays other
  cases serves with
  | root => cases other plays
  | column => exact .inl resolves
  | reference _ classified many => exact .inr ⟨_, resolves, classified, many⟩
  | shown => exact .inl resolves
  | value => cases other plays
  | mutation => cases other plays

-- What is of a leaf type is not looked up.
theorem Grounded.leaf_scalar (grounded : s.Grounded) {type : TypeExpr} {t : TypeDef}
    (known : s.catalog.type? type.name = some t) (leaf : t.isLeaf = true) {shape : FieldShape}
    (classified : FieldShape.classify s.document.lookup type = .ok shape) :
    shape.kind = .scalar := by
  by_contra rows
  obtain ⟨t', fields, known', object⟩ :=
    grounded.object_of_kindOf ((FieldShape.classify_rows classified rows).imp And.left And.left)
  obtain rfl := Option.some.inj (known.symm.trans known')
  unfold TypeDef.isLeaf at leaf
  rw [object] at leaf
  cases leaf

end Schema

namespace Execution

variable {x : Execution Memory} {m : Memory} {t : TypeDef} {head : FieldHead} {f : FieldDef}
  {arguments : Arguments}

theorem Meets.bare (declared : t.field? head.name = some f) (none : head.arguments = [])
    (free : x.schema.refusal? t.name f.name (withDefaults f.arguments []) = .none) :
    x.Meets t head f (withDefaults f.arguments []) :=
  ⟨declared, ⟨[], by rw [none]; rfl, rfl⟩, free⟩

theorem Meets.name (meets : x.Meets t head f arguments) : f.name = head.name := by
  have declared := meets.declared
  unfold TypeDef.field? at declared
  simpa using List.find?_some declared

-- A field of a row shows what the item said of its column.
theorem Meets.column (meets : x.Meets t head f arguments) (built : x.schema.Built)
    (rows : x.schema.document.kindOf t.name = some .table)
    (known : x.schema.catalog.type? t.name = some t) {item : Commit.Item}
    {row : List (String × Value)} {e : Entry}
    (stored : Value.ofDatumMembers (Commit.columns item) = .ok row)
    (own : e.row = Row.ofColumns row) (readable : Commit.Readable x.schema.catalog item f)
    (object : Complete.ObjectData Memory) (path : Path) :
    Comes m (x.field t (.row e.shownRow) path head object f) fun d =>
      Commit.Shown item e.key.id f.name (d.getD .null) := by
  have served := built.table_resolver rows known (meets.name ▸ meets.declared)
  have column {t' : TypeDef} (known' : x.schema.catalog.type? f.type.name = some t')
      (leaf : t'.isLeaf = true) :
      FieldMap.get? x.schema.resolvers t.name f.name = some (.column f.name) := by
    refine served.resolve_right ?_
    rintro ⟨shape, _, classified, rows'⟩
    exact rows' (built.grounded.leaf_scalar known' leaf classified)
  have resolved {o : Option Outcome} (same : Resolve.column f.name (.row e.shownRow) = .ok o) :
      Comes m (x.resolver (path ++ [.field head.key]) head.loc arguments (.row e.shownRow)
        (.column f.name)) (· = o) := by
    change Comes m (liftM (Resolve.column f.name (.row e.shownRow)) : Resolving Memory _) (· = o)
    rw [same]
    exact Comes.lift rfl
  cases readable with
  | @id name nonNull t' called typed found body =>
    have shown : Resolve.column f.name (.row e.shownRow) =
        .ok (some (.leaf (.string e.key.id.text))) := by
      rw [Resolve.column_row, called, e.stored?_id]
      rfl
    have served := column (by rw [typed]; exact found) (by unfold TypeDef.isLeaf; rw [body])
    refine meets.field served (resolved shown) fun o same => ?_
    subst same
    rw [typed]
    exact (Comes.scalar found body _ _).imp fun d same => same ▸ .id called
  | @given d t' other given present precise found leaf holds =>
    obtain ⟨v, there, shown, made, shows⟩ := Value.stored?_given stored precise given present
    have shown : Resolve.column f.name (.row e.shownRow) = .ok (some (.leaf shown)) := by
      rw [Resolve.column_row, e.stored?_other other, own, there]
      simp only [made]
      rfl
    refine meets.field (column found leaf) (resolved shown) fun o same => ?_
    subst same
    refine (Comes.leaf holds shows _).imp fun d showing => ?_
    obtain ⟨d, rfl, shows⟩ := showing
    exact .given other given shows
  | empty other absent nullable =>
    have nothing : Resolve.stored? e.shownRow f.name = none := by
      rw [e.stored?_other other, own]
      exact Value.stored?_absent stored absent
    have null : Commit.Shown item e.key.id f.name .null := by
      rcases absent with missing | null
      · exact .missing other missing
      · exact .given other null .null
    have completes (o : Option Outcome) (same : o = none) : Comes m (Complete.outcome
        x.schema.catalog object head.loc f.type (path ++ [.field head.key]) o) fun d =>
          Commit.Shown item e.key.id f.name (d.getD .null) := by
      subst same
      exact (Comes.nothing nullable _).imp fun d same => same ▸ null
    obtain served | ⟨shape, served, classified, many⟩ := served
    · refine meets.field served (resolved ?_) completes
      rw [Resolve.column_row, nothing]
    · have optional : shape.nonNull = false := by
        rw [FieldShape.classify_nonNull classified]
        simpa [TypeExpr.nullable] using nullable
      have leads : Comes m (x.resolver (path ++ [.field head.key]) head.loc arguments
          (.row e.shownRow) (.reference f.name shape)) (· = none) := fun r quiet =>
        ⟨none, r, Resolve.reference_empty many optional nothing _ _ r, quiet, rfl⟩
      exact meets.field served leads completes

-- A field of the query root that looks for a row of a table by its id.
inductive Seeks (x : Execution Memory) (root : TypeDef) (head : FieldHead) (key : Key) : Prop where
  | byId {f : FieldDef} {arguments : Arguments} {argument : String} {shape : FieldShape}
      {nonNull : Bool} {d : Datum} : x.Meets root head f arguments →
      f.type = .named key.table nonNull →
      FieldMap.get? x.schema.resolvers root.name f.name = some (.root argument shape) →
      Resolve.argument? arguments argument = some d → Resolve.idOfDatum? d = some key.id →
      Seeks x root head key

-- The fields of a row that are asked for are shown together, under their own keys.
theorem comes_row (built : x.schema.Built) (rows : x.schema.document.kindOf t.name = some .table)
    (known : x.schema.catalog.type? t.name = some t) {item : Commit.Item}
    {row : List (String × Value)} {e : Entry}
    (stored : Value.ofDatumMembers (Commit.columns item) = .ok row)
    (own : e.row = Row.ofColumns row) {children : List Node}
    (agree : ∀ l ∈ Node.shown t.name children, ∀ l' ∈ Node.shown t.name children,
      l.key = l'.key → l.1.name = l'.1.name)
    (readable : ∀ l ∈ Node.shown t.name children, ∃ f arguments, x.Meets t l.1 f arguments ∧
      Commit.Readable x.schema.catalog item f) (path : Path) :
    Comes m (Datum.ofResults <$> x.selections t (.row e.shownRow) path children)
      (Commit.ShowsRow item e.key.id (Node.shown t.name children)) := by
  have each (l) (member : l ∈ Node.shown t.name children) :
      Comes m (x.selection t (.row e.shownRow) path l.node) fun results =>
        ∃ d, results = [(l.key, d)] ∧ Commit.Shown item e.key.id l.1.name d := by
    obtain ⟨f, arguments, meets, reads⟩ := readable l member
    obtain ⟨r, resolves⟩ : ∃ r, FieldMap.get? x.schema.resolvers t.name f.name = some r := by
      obtain served | ⟨_, served, _⟩ :=
        built.table_resolver rows known (meets.name ▸ meets.declared)
      · exact ⟨_, served⟩
      · exact ⟨_, served⟩
    obtain ⟨plain, other⟩ := built.declared_field t resolves
    rw [meets.name] at plain other
    refine (meets.selection plain other l.2
      (meets.column built rows known stored own reads _ path)).imp ?_
    rintro _ ⟨d, rfl, shown⟩
    exact ⟨_, rfl, meets.name ▸ shown⟩
  exact (comes_selections each).map fun results => .ofResults agree

-- A row that is there is found by its id.
theorem comes_sought {root : TypeDef} {e : Entry} (built : x.schema.Built)
    (rows : x.schema.document.kindOf e.key.table = some .table)
    (known : x.schema.catalog.type? e.key.table = some t)
    (rooted : x.schema.catalog.type? root.name = some root) (memory : x.backend = Memory.backend)
    (seeks : x.Seeks root head e.key) (stands : m.get? e.key = some e) {children : List Node}
    {P : Datum → Prop} (shows : ∀ path,
      Comes m (Datum.ofResults <$> x.selections t (.row e.shownRow) path children) P) :
    Comes m (x.selection root .root [] (.field head children)) fun results =>
      ∃ d, results = [(head.key, d)] ∧ P d := by
  obtain @⟨f, arguments, argument, shape, nonNull, d, meets, typed, resolves, given, id⟩ := seeks
  obtain ⟨plain, other⟩ := built.declared_field root resolves
  rw [meets.name] at plain other
  -- The type of the field is the table itself, so it shows one row, and not as an entry.
  have shaped : shape = ⟨.reference e.key.table, nonNull, false⟩ := by
    have classified :=
      built.grounded.classified rooted (meets.name ▸ meets.declared) resolves rfl
    rw [typed, FieldShape.classify, FieldShape.ofName,
      show x.schema.document.lookup.kindOf e.key.table = some .table from rows] at classified
    exact (Except.ok.inj classified).symm
  subst shaped
  have found : Comes m (x.resolver ([] ++ [.field head.key]) head.loc arguments .root
      (.root argument ⟨.reference e.key.table, nonNull, false⟩)) (· = some (.row e.shownRow)) := by
    intro r quiet
    have row := Resolve.root_row (quiet.store.symm ▸ stands) ([] ++ [.field head.key]) head.loc
      (show FieldShape.kind ⟨.reference e.key.table, nonNull, false⟩ = _ from rfl) given id
    rw [← memory] at row
    exact ⟨_, r, row, quiet, rfl⟩
  obtain ⟨t', fields, known', body⟩ := built.grounded.object_of_kindOf (.inl rows)
  obtain rfl := Option.some.inj (known.symm.trans known')
  have shown : Comes m (x.field root .root [] head
      (fun t o here => Datum.ofResults <$> x.selections t o here children) f) fun d =>
        ∃ shown, d = some shown ∧ P shown := by
    refine meets.field resolves found fun o same => ?_
    subst same
    rw [typed]
    exact .rowObject known body (shows _)
  refine (meets.selection plain other children shown).imp ?_
  rintro _ ⟨_, rfl, shown, rfl, holds⟩
  exact ⟨shown, rfl, holds⟩

end Execution

namespace Schema

variable {s : Schema}

-- Items are written to tables.
theorem Grounded.listed_table (grounded : s.Grounded) {type field : String} {plan : MutationPlan}
    (resolves : FieldMap.get? s.resolvers type field = some (.mutation plan))
    {input : List (String × Datum)} {listed : List (Binding × Datum)}
    (lists : Commit.Listed input plan.bindings listed) {i : Binding × Datum} (member : i ∈ listed) :
    s.document.kindOf i.1.table = some .table := by
  obtain ⟨_, _, _, _, _, _, mutates⟩ := (grounded.plans resolves).declared
  obtain ⟨_, fields, _, _, _, _, bound⟩ := mutates.input
  rw [lists.eq_items] at member
  obtain ⟨b, inside, here⟩ := List.mem_flatMap.mp member
  obtain ⟨d, _, rfl⟩ := List.mem_map.mp here
  obtain ⟨f, _, binds⟩ := mem_of_forall₂ bound.flip inside
  exact of_decide_eq_true binds.table

theorem Built.written_is_read (built : s.Built) {type field : String} {plan : MutationPlan}
    (resolves : FieldMap.get? s.resolvers type field = some (.mutation plan))
    {arguments : Arguments} {input : List (String × Datum)}
    {before after : List (Binding × Datum)} {b : Binding} {item : Commit.Item} {rid : RowId}
    {r r' : Run Memory} {o : Outcome}
    (given : Members.get? plan.argument arguments = some (.object input))
    (lists : Commit.Listed input plan.bindings (before ++ (b, .object item) :: after))
    (kind : b.op ≠ .delete) (named : Commit.named? item = some rid)
    (last : ∀ i ∈ after, ∀ other, i.2 = .object other → i.1.table = b.table →
      Commit.named? other ≠ some rid)
    (committed : (Commit.mutation Memory.backend plan arguments).run r = (.ok (some o), r'))
    -- The query may come later, as long as the row has been left alone.
    {store : Memory} (kept : store.get? ⟨b.table, rid⟩ = r'.store.get? ⟨b.table, rid⟩)
    {request : Request} {m : Request.Measured} {root t : TypeDef} {head : FieldHead}
    {children : List Node} (prepared : request.prepare s = .ok m)
    (query : m.operation.kind = .query)
    (rooted : s.catalog.type? s.document.query = some root)
    (known : s.catalog.type? b.table = some t)
    (asked : Node.shown root.name m.nodes = [(head, children)])
    (seeks : (⟨s, Memory.backend, m.operation.variableDefs, request.values⟩ :
      Execution Memory).Seeks root head ⟨b.table, rid⟩)
    (agree : ∀ l ∈ Node.shown t.name children, ∀ l' ∈ Node.shown t.name children,
      l.key = l'.key → l.1.name = l'.1.name)
    (readable : ∀ l ∈ Node.shown t.name children, ∃ f arguments,
      (⟨s, Memory.backend, m.operation.variableDefs, request.values⟩ : Execution Memory).Meets
        t l.1 f arguments ∧ Commit.Readable s.catalog item f) :
    ∃ shown, (s.execute Memory.backend request store).response =
        some ⟨.object [(head.key, shown)], []⟩ ∧
      Commit.ShowsRow item rid (Node.shown t.name children) shown := by
  have rows : s.document.kindOf b.table = some .table :=
    built.grounded.listed_table resolves lists (List.mem_append_right before List.mem_cons_self)
  obtain ⟨row, stamp, stored, stands⟩ :=
    Commit.stands_of_stamped given lists kind named last committed
  rw [← kept] at stands
  let e : Entry := ⟨⟨b.table, rid⟩, Row.ofColumns row, stamp⟩
  let x : Execution Memory := ⟨s, Memory.backend, m.operation.variableDefs, request.values⟩
  have called : t.name = b.table := Catalog.name_of_type? known
  have fields (path : Path) :=
    x.comes_row (m := store) (e := e) built (called.symm ▸ rows) (called.symm ▸ known) stored rfl
      agree readable path
  have row :=
    x.comes_sought (e := e) built rows known (Catalog.type?_name rooted) rfl seeks stands fields
  have whole (l) (member : l ∈ Node.shown root.name m.nodes) :
      Comes store (x.selection root .root [] l.node) fun results => ∃ d, results = [(l.key, d)] ∧
        Commit.ShowsRow item rid (Node.shown t.name children) d := by
    rw [asked, List.mem_singleton] at member
    subst member
    exact row
  obtain ⟨results, ran, all⟩ := x.comes_run (x.comes_selections whole)
  rw [asked] at all
  obtain ⟨⟨key, shown⟩, _, ⟨rfl, shows⟩, none, rfl⟩ := List.forall₂_cons_left_iff.mp all
  obtain rfl := List.forall₂_nil_left_iff.mp none
  have entered : (s.catalog.root? m.operation.kind).bind s.catalog.type? = some root := by
    have own : s.catalog.root? .query = some s.document.query := by
      rw [built.grounded.catalog]
      rfl
    rw [query, own]
    exact rooted
  refine ⟨shown, ?_, shows⟩
  unfold execute
  rw [prepared]
  simp only [entered]
  rw [ran]
  simp [Datum.ofResults, Datum.addMembers, Members.get?, Members.set, Choice.key]

end Schema

-- A shelf of books with columns of several leaf types.
def leafShelf : String :=
  Overview.ask "enum Genre" ["NOVEL", "ESSAY"] ++
  Overview.ask "type Query" ["book(id: ID): Book"] ++
  Overview.ask "type Book" ["id: ID", "title: String", "genre: Genre", "grid: [[Int]]"] ++
  Overview.ask "type Mutation" ["write(input: Write): ID"] ++
  Overview.ask "input Write" ["add: Put @create(table: \"Book\")"] ++
  Overview.ask "input Put" ["id: ID", "genre: Genre", "grid: [[Int]]"]

def leafPlan : MutationPlan := ⟨"input", [⟨"add", .create, "Book"⟩], .stamp⟩

-- A book without a title.
def leafItem : Commit.Item :=
  [("id", .int 7), ("genre", .enum "ESSAY"), ("grid", .list [.list [.int 1, .null], .list []])]

def leafInput : List (String × Datum) := [("add", .object leafItem)]

def leafRead : Request :=
  { source := Overview.ask "" [Overview.ask "book(id: 7)" ["id", "title", "genre", "grid"]] }

theorem leaf_read_back : ∃ (s : Schema) (r' : Run Memory) (o : Outcome) (asked : List Choice)
    (shown : Datum), s.Built ∧
    FieldMap.get? s.resolvers "Mutation" "write" = some (.mutation leafPlan) ∧
    (Commit.mutation Memory.backend leafPlan [("input", .object leafInput)]).run
      { store := Memory.empty } = (.ok (some o), r') ∧
    asked.map (·.1.name) = ["id", "title", "genre", "grid"] ∧
    (s.execute Memory.backend leafRead r'.store).response = some ⟨.object [("book", shown)], []⟩ ∧
    Commit.ShowsRow leafItem ⟨"7"⟩ asked shown := by
  have taken : ((Commit.mutation Memory.backend leafPlan [("input", .object leafInput)]).run
      { store := Memory.empty }).1.toOption.any Option.isSome = true := by
    decide +kernel
  have ready : (Session.build {} leafShelf []).toOption.any (fun s =>
      (leafRead.prepare s).toOption.any fun m =>
      (s.catalog.type? s.document.query).any fun root => (s.catalog.type? "Book").any fun t =>
      (Node.shown root.name m.nodes).head?.any fun l => (root.field? l.1.name).any fun f =>
      let x : Execution Memory := ⟨s, Memory.backend, m.operation.variableDefs, leafRead.values⟩
      decide (m.operation.kind = .query ∧ (Node.shown root.name m.nodes).length = 1 ∧
        l.1.key = "book" ∧ f.type = .named "Book" false ∧
        FieldMap.get? s.resolvers root.name f.name =
          some (.root "id" ⟨.reference "Book", false, false⟩) ∧
        FieldMap.get? s.resolvers "Mutation" "write" = some (.mutation leafPlan) ∧
        ((x.givenArguments l.1.arguments).toOption.bind fun written =>
          (Resolve.argument? (Execution.withDefaults f.arguments written) "id").bind
            Resolve.idOfDatum?) = some ⟨"7"⟩ ∧
        (Node.shown t.name l.2).map (fun l => l.1.name) = ["id", "title", "genre", "grid"] ∧
        (∀ c ∈ Node.shown t.name l.2, c.1.key = c.1.name ∧ c.1.arguments.length = 0 ∧
          (c.1.name, (t.field? c.1.name).map FieldDef.type) ∈
            [("id", some (.named "ID" false)), ("title", some (.named "String" false)),
              ("genre", some (.named "Genre" false)),
              ("grid", some (.list (.list (.named "Int" false) false) false))]) ∧
        (s.catalog.type? "Genre").map TypeDef.body = some (.enum ["NOVEL", "ESSAY"]) ∧
        ∀ name ∈ ["ID", "Int"], (s.catalog.type? name).map TypeDef.body = some .scalar)) =
      true := by
    rw [Session.build_toList]
    simp only [leafShelf, String.toList_append, Overview.toList_ask]
    decide +kernel
  obtain ⟨s, made, ready⟩ := (Option.any_eq_true _ _).mp ready
  obtain ⟨m, prepared, ready⟩ := (Option.any_eq_true _ _).mp ready
  obtain ⟨root, rooted, ready⟩ := (Option.any_eq_true _ _).mp ready
  obtain ⟨t, known, ready⟩ := (Option.any_eq_true _ _).mp ready
  obtain ⟨⟨head, children⟩, first, ready⟩ := (Option.any_eq_true _ _).mp ready
  obtain ⟨f, declared, ready⟩ := (Option.any_eq_true _ _).mp ready
  obtain ⟨query, single, key, typed, sought, resolves, id, names, columns, enum, scalars⟩ :=
    of_decide_eq_true ready
  obtain ⟨o, stamped, some⟩ := (Option.any_eq_true _ _).mp taken
  obtain ⟨o, rfl⟩ := Option.isSome_iff_exists.mp some
  let r' := ((Commit.mutation Memory.backend leafPlan [("input", .object leafInput)]).run
    { store := Memory.empty }).2
  have committed : (Commit.mutation Memory.backend leafPlan [("input", .object leafInput)]).run
      { store := Memory.empty } = (.ok (.some o), r') := Prod.ext (ok_of_toOption stamped) rfl
  have made := ok_of_toOption made
  have built : s.Built := ⟨{}, leafShelf, [], made⟩
  have asked : Node.shown root.name m.nodes = [(head, children)] := by
    obtain ⟨rest, same⟩ := List.head?_eq_some_iff.mp first
    rw [same] at single ⊢
    rw [List.length_eq_zero_iff.mp (Nat.succ.inj single)]
  let x : Execution Memory := ⟨s, Memory.backend, m.operation.variableDefs, leafRead.values⟩
  have free := Schema.free_of_build made
  obtain ⟨written, read, found⟩ := Option.bind_eq_some_iff.mp id
  obtain ⟨d, given, id⟩ := Option.bind_eq_some_iff.mp found
  have seeks : x.Seeks root head ⟨"Book", ⟨"7"⟩⟩ :=
    .byId ⟨declared, ⟨written, ok_of_toOption read, rfl⟩, free _ _ _⟩ typed sought given id
  have scalar (name : String) (member : name ∈ ["ID", "Int"]) :
      ∃ t', s.catalog.type? name = .some t' ∧ t'.body = .scalar :=
    Option.map_eq_some_iff.mp (scalars name member)
  obtain ⟨genre, genreKnown, genreBody⟩ := Option.map_eq_some_iff.mp enum
  have readable (l) (member : l ∈ Node.shown t.name children) : ∃ f arguments,
      x.Meets t l.1 f arguments ∧ Commit.Readable s.catalog leafItem f := by
    obtain ⟨_, none, column⟩ := columns l member
    obtain ⟨f, declared⟩ : ∃ f, t.field? l.1.name = .some f := by
      cases found : t.field? l.1.name with
      | none => simp [found] at column
      | some f => exact ⟨f, rfl⟩
    have meets := Execution.Meets.bare (x := x) declared (List.length_eq_zero_iff.mp none)
      (free _ _ _)
    refine ⟨f, _, meets, ?_⟩
    rw [declared, ← meets.name] at column
    simp only [List.mem_cons, Prod.mk.injEq, Option.map_some, Option.some.injEq, List.not_mem_nil,
      or_false] at column
    rcases column with ⟨name, type⟩ | ⟨name, type⟩ | ⟨name, type⟩ | ⟨name, type⟩
    · obtain ⟨_, known', body⟩ := scalar "ID" (by simp)
      exact .id name type known' body
    · exact .empty (by simp [name, idColumn])
        (.inl (by simp [name, leafItem, Commit.columns, Members.final?, last?, idColumn,
          stampField])) (by rw [type]; rfl)
    · have final : Members.final? f.name (Commit.columns leafItem) = .some (.enum "ESSAY") := by
        simp [name, leafItem, Commit.columns, Members.final?, last?, idColumn, stampField]
      refine .given (by simp [name, idColumn]) final (by simp) trivial (t := genre) ?_ ?_ ?_
      · rw [type]; exact genreKnown
      · unfold TypeDef.isLeaf; rw [genreBody]
      · rw [type]; exact .enum genreKnown genreBody rfl (by simp)
    · have final : Members.final? f.name (Commit.columns leafItem) =
          .some (.list [.list [.int 1, .null], .list []]) := by
        simp [name, leafItem, Commit.columns, Members.final?, last?, idColumn, stampField]
      obtain ⟨int, known', body⟩ := scalar "Int" (by simp)
      refine .given (by simp [name, idColumn]) final (by simp) ?_ (t := int) ?_ ?_ ?_
      · simp [Datum.Exact, Datum.ExactItems, Datum.int, Number.Exact]
      · rw [type]; exact known'
      · unfold TypeDef.isLeaf; rw [body]
      · rw [type]
        refine .list fun d member => ?_
        obtain ⟨ds, rfl⟩ : ∃ ds, d = .list ds := by
          simp only [List.mem_cons, List.not_mem_nil, or_false] at member
          rcases member with rfl | rfl <;> exact ⟨_, rfl⟩
        exact .list fun _ _ => .scalar known' body
  have agree : ∀ l ∈ Node.shown t.name children, ∀ l' ∈ Node.shown t.name children,
      l.key = l'.key → l.1.name = l'.1.name := fun l member l' member' same =>
    (columns l member).1.symm.trans (same.trans (columns l' member').1)
  have lists : Commit.Listed leafInput leafPlan.bindings
      ([] ++ (⟨"add", .create, "Book"⟩, .object leafItem) :: []) :=
    .one rfl (by simp) (by simp) .done
  have named : Commit.named? leafItem = .some ⟨"7"⟩ := by decide +kernel
  obtain ⟨shown, answered, shows⟩ := built.written_is_read resolves rfl lists (by simp) named
    (by simp) committed rfl (ok_of_toOption prepared) query rooted known asked seeks agree readable
  exact ⟨s, r', o, Node.shown t.name children, shown, built, resolves, committed, names,
    key ▸ answered, shows⟩

-- A shelf on which not everything is shown as it was written. Its books have lists for ids, and no
-- enum but one value.
def oddShelf : String :=
  Overview.ask "enum Genre" ["NOVEL"] ++
  Overview.ask "type Query" ["book(id: ID): Book"] ++
  Overview.ask "type Book"
    ["id: [ID]", "title: String", "genre: Genre", "genres: [Genre]", "grid: [[Int]]"] ++
  Overview.ask "type Mutation" ["write(input: Write): ID"] ++
  Overview.ask "input Write" ["add: Put @create(table: \"Book\")"] ++
  Overview.ask "input Put"
    ["id: ID", "title: String", "genre: Genre", "genres: [Genre]", "grid: [[Int]]"]

-- An argument in which a variable has only its default is not checked, so a name that is no value
-- of the enum comes in next to it.
def oddWrite : Request :=
  { source := Overview.ask "mutation ($genre: Genre, $title: String = \"Dune\")"
      ["write(input: \x7badd: \x7bid: 1, title: $title, genre: $genre,",
        "genres: [NOVEL, null], grid: [[1], null]\x7d\x7d)"]
    values := [("genre", .string "ESSAY")] }

def oddRead : Request :=
  { source := Overview.ask ""
      [Overview.ask "book(id: 1)" ["id", "title", "genre", "genres", "grid"]] }

-- The book is written, and there is an error for each of its columns: the id is no list, a hook
-- refuses the title, the genre is no value of the enum, and nulls are neither values of an enum nor
-- lists.
theorem odd_shelf_misread : ∃ (s : Schema) (response : Response), s.Built ∧
    (s.execute Memory.backend oddWrite Memory.empty).store.version = .ofCounter 1 ∧
    (s.execute Memory.backend oddRead
      (s.execute Memory.backend oddWrite Memory.empty).store).response = some response ∧
    response.errors.map ResponseError.path = [[.field "book", .field "id"],
      [.field "book", .field "title"], [.field "book", .field "genre"],
      [.field "book", .field "genres", .index 1], [.field "book", .field "grid", .index 1]] := by
  let hooks : List Attachment := [⟨"Book", "title", .refuse "hide" "Titles are not shown."⟩]
  have shown : ((Session.build {} oddShelf hooks).toOption.bind fun s =>
      let written := (s.execute Memory.backend oddWrite Memory.empty).store
      (s.execute Memory.backend oddRead written).response.bind fun r =>
        some (r.errors.map ResponseError.path, written.version)) =
      some ([[.field "book", .field "id"], [.field "book", .field "title"],
        [.field "book", .field "genre"], [.field "book", .field "genres", .index 1],
        [.field "book", .field "grid", .index 1]], .ofCounter 1) := by
    rw [Session.build_toList]
    simp only [oddShelf, String.toList_append, Overview.toList_ask]
    decide +kernel
  obtain ⟨s, made, shown⟩ := Option.bind_eq_some_iff.mp shown
  obtain ⟨response, answered, shown⟩ := Option.bind_eq_some_iff.mp shown
  obtain ⟨paths, version⟩ := Prod.mk.inj (Option.some.inj shown)
  exact ⟨s, response, ⟨{}, oddShelf, hooks, ok_of_toOption made⟩, version, answered, paths⟩

end RowGraph
