import Mathlib.Data.List.Nodup
import RowGraph.Proofs.Schema.Finished
import RowGraph.Proofs.Schema.Inner
import RowGraph.Proofs.Schema.Maps
import RowGraph.Proofs.Schema.Wrapping
/-!
Every field of an object type is served, once. An object type is a root, an entry type or a table,
and all views of a document agree on which. Main statement: the fields that have a resolver, and
those that can take hooks, are the declared fields of the object types, and what the type is decides
what kind of resolver its fields have.
-/

namespace RowGraph

-- What an object type can be in a document.
inductive Role where
  | root
  | entry
  | table
deriving DecidableEq, Repr

-- Fields cannot be of a root type, so a root has no kind.
def Role.kind? : Role → Option NamedKind
  | .root => none
  | .entry => some .entry
  | .table => some .table

namespace Document

def Plays (d : Document) (type : String) : Role → Prop
  | .root => d.isRoot type = true
  | .entry => d.isEntry type = true
  | .table => d.isTable type = true

-- The object types are parted into roots, entry types and tables.
structure Parted (d : Document) : Prop where
  role : ∀ type fields, (type, fields) ∈ d.objects → ∃! role, d.Plays type role
  object : ∀ type role, d.Plays type role → ∃ fields, (type, fields) ∈ d.objects
  kind : ∀ type role, d.Plays type role → d.kindOf type = role.kind?
  tables : ∀ type fields, (type, fields) ∈ d.tables ↔
    (type, fields) ∈ d.objects ∧ d.Plays type .table
  entries : ∀ type fields, (type, fields) ∈ d.entryObjects ↔
    (type, fields) ∈ d.objects ∧ d.Plays type .entry
  entryTable : ∀ type, (∃ table, d.entryTable? type = some table) ↔ d.Plays type .entry
  -- No type is passed over twice, in one pass or in two.
  once : ((d.tables ++ d.entryObjects).map Prod.fst).Nodup

theorem table_declared {d : Document} {type : String} (table : d.isTable type = true) :
    ∃ fields, (type, fields) ∈ d.objects := by
  have kind : d.kindOf type = some .table := of_decide_eq_true table
  unfold Document.kindOf at kind
  split at kind
  · cases kind
  · split at kind
    · cases kind
    · rename_i t declared
      split at kind
      · rename_i fields object
        exact ⟨fields, mem_objects_of_type? declared object⟩
      all_goals cases kind

theorem entry_declared {source : String} {d : Document} (accepted : read source = .ok d)
    {type : String} (entry : d.isEntry type = true) :
    d.isRoot type = false ∧ ∃ fields, (type, fields) ∈ d.objects := by
  obtain ⟨named, entries⟩ := read_ok accepted
  obtain ⟨table, wrapped⟩ := isEntry_iff.mp entry
  obtain ⟨⟨notRoot, fields, declared, _⟩, _⟩ := (entryTable?_iff named.nodup entries).mp wrapped
  exact ⟨notRoot, fields, declared⟩

theorem root_declared {source : String} {d : Document} (accepted : read source = .ok d)
    {type : String} (root : d.isRoot type = true) : ∃ fields, (type, fields) ∈ d.objects := by
  obtain ⟨query, mutation⟩ := read_roots accepted
  have shown : (d.objectFields? type).isSome = true := by
    rcases Bool.or_eq_true_iff.mp root with same | same
    · exact of_decide_eq_true same ▸ query
    · exact mutation type (of_decide_eq_true same)
  obtain ⟨fields, shown⟩ := Option.isSome_iff_exists.mp shown
  exact ⟨fields, (objectFields?_iff (read_ok accepted).1.nodup).mp shown⟩

theorem role_unique {source : String} {d : Document} (accepted : read source = .ok d)
    {type : String} {fields : List FieldDef} (declared : (type, fields) ∈ d.objects) :
    ∃! role, d.Plays type role := by
  have table := isTable_mem (read_ok accepted).1 declared
  cases root : d.isRoot type with
  | true =>
    refine ⟨.root, root, fun role plays => ?_⟩
    cases role with
    | root => rfl
    | entry => exact absurd (entry_declared accepted plays).1 (by simp [root])
    | table => simp [Plays, table, root] at plays
  | false =>
    cases entry : d.isEntry type with
    | true =>
      refine ⟨.entry, entry, fun role plays => ?_⟩
      cases role with
      | root => exact absurd (root.symm.trans plays) (by simp)
      | entry => rfl
      | table => simp [Plays, table, entry] at plays
    | false =>
      refine ⟨.table, by simp [Plays, table, root, entry], fun role plays => ?_⟩
      cases role with
      | root => exact absurd (root.symm.trans plays) (by simp)
      | entry => exact absurd (entry.symm.trans plays) (by simp)
      | table => rfl

theorem plays_declared {source : String} {d : Document} (accepted : read source = .ok d)
    {type : String} {role : Role} (plays : d.Plays type role) :
    ∃ fields, (type, fields) ∈ d.objects := by
  cases role with
  | root => exact root_declared accepted plays
  | entry => exact (entry_declared accepted plays).2
  | table => exact table_declared plays

theorem kindOf_plays {source : String} {d : Document} (accepted : read source = .ok d)
    {type : String} {role : Role} (plays : d.Plays type role) : d.kindOf type = role.kind? := by
  obtain ⟨fields, declared⟩ := plays_declared accepted plays
  have kind := kindOf_mem (read_ok accepted).1 declared
  cases role with
  | root => exact kind.trans (if_pos plays)
  | entry =>
    have notRoot : ¬ d.isRoot type = true := by simp [(entry_declared accepted plays).1]
    exact kind.trans ((if_neg notRoot).trans (congrArg some (if_pos plays)))
  | table => exact of_decide_eq_true plays

theorem parted {source : String} {d : Document} (accepted : read source = .ok d) : d.Parted := by
  have named := (read_ok accepted).1
  refine ⟨fun _ _ => role_unique accepted, fun _ _ => plays_declared accepted,
    fun _ _ => kindOf_plays accepted, ?_, fun _ _ => List.mem_filter, fun _ => isEntry_iff.symm, ?_⟩
  · intro type fields
    constructor
    · intro member
      obtain ⟨declared, plain⟩ := List.mem_filter.mp member
      exact ⟨declared, (isTable_mem named declared).trans plain⟩
    · rintro ⟨declared, plays⟩
      exact List.mem_filter.mpr ⟨declared, (isTable_mem named declared).symm.trans plays⟩
  · have nodup := objects_nodup named.nodup
    rw [List.map_append, List.nodup_append]
    refine ⟨nodup.sublist (List.filter_sublist.map _), nodup.sublist (List.filter_sublist.map _), ?_⟩
    intro name tables name' entries same
    obtain ⟨o, table, rfl⟩ := List.mem_map.mp tables
    obtain ⟨o', entry, rfl⟩ := List.mem_map.mp entries
    have plain := (List.mem_filter.mp table).2
    rw [same, (List.mem_filter.mp entry).2, Bool.not_true, Bool.and_false] at plain
    cases plain

end Document

-- What was made of a text, as a schema that nothing has been checked of yet.
def Blueprint.unchecked (b : Blueprint) : Schema where
  document := b.document
  resolvers := b.resolvers
  hooks := b.hooks
  catalog := Catalog.ofDocument b.document Settings.defaults.introspection
  settings := .defaults

theorem Blueprint.read_parts {source : String} {b : Blueprint}
    (accepted : Blueprint.read source = .ok b) :
    Document.read source = .ok b.document ∧
      (∃ derived, b.document.derive = .ok derived ∧ b.resolvers = FieldMap.ofList derived) ∧
      b.hooks = b.resolvers.toList.foldl (fun m e => HookMap.placeholder m e.1 e.2.1)
        FieldMap.empty := by
  obtain ⟨d, parsed, made⟩ := Document.bind_ok accepted
  obtain ⟨derived, derives, made⟩ := Document.bind_ok made
  obtain rfl := Except.ok.inj made
  exact ⟨parsed, ⟨derived, derives, rfl⟩, rfl⟩

theorem Blueprint.unchecked_grounded {source : String} {b : Blueprint}
    (accepted : Blueprint.read source = .ok b) : b.unchecked.Grounded := by
  obtain ⟨parsed, derived, _⟩ := read_parts accepted
  obtain ⟨named, entries⟩ := Document.read_ok parsed
  exact ⟨named, entries, derived, rfl⟩

-- What a blueprint has for the fields of the object types.
structure Blueprint.Covers (b : Blueprint) : Prop where
  parted : b.document.Parted
  resolvers : ∀ type field, FieldMap.contains b.resolvers type field = true ↔
    ∃ fields, (type, fields) ∈ b.document.objects ∧ ∃ f ∈ fields, f.name = field
  hooks : ∀ type field, FieldMap.contains b.hooks type field = true ↔
    ∃ fields, (type, fields) ∈ b.document.objects ∧ ∃ f ∈ fields, f.name = field
  -- A type with a field is not the root of the queries and of the mutations.
  apart : ∀ type fields, (type, fields) ∈ b.document.objects → fields ≠ [] →
    ¬ (b.document.query = type ∧ b.document.mutation = some type)
  query : ∀ fields, (b.document.query, fields) ∈ b.document.objects → ∀ f ∈ fields,
    ∃ argument shape, FieldShape.classify b.document.lookup f.type = .ok shape ∧
      shape.kind ≠ .scalar ∧
      FieldMap.get? b.resolvers b.document.query f.name = some (.root argument shape)
  mutation : ∀ root fields, b.document.mutation = some root →
    (root, fields) ∈ b.document.objects → ∀ f ∈ fields, ∃ plan, b.document.Mutates f plan ∧
      FieldMap.get? b.resolvers root f.name = some (.mutation plan)
  entry : ∀ type fields, (type, fields) ∈ b.document.objects → b.document.Plays type .entry →
    ∀ f ∈ fields, FieldMap.get? b.resolvers type f.name =
      some (if f.name = valueField then .value else .column f.name)
  table : ∀ type fields, (type, fields) ∈ b.document.objects → b.document.Plays type .table →
    ∀ f ∈ fields, ∃ shape, FieldShape.classify b.document.lookup f.type = .ok shape ∧
      FieldMap.get? b.resolvers type f.name =
        some (if shape.kind = .scalar then .column f.name else .reference f.name shape)

-- In a list of distinct names, the last of a name is the only one.
theorem last?_nodup {fields : List FieldDef} (distinct : (fields.map FieldDef.name).Nodup)
    {f : FieldDef} (inside : f ∈ fields) : last? (fun g => g.name = f.name) fields = some f := by
  obtain ⟨g, found⟩ : ∃ g, last? (fun g => g.name = f.name) fields = some g := by
    unfold last?
    rw [← Option.isSome_iff_exists, List.find?_isSome]
    exact ⟨f, List.mem_reverse.mpr inside, decide_eq_true rfl⟩
  obtain ⟨member, named⟩ := last?_some found
  rw [found, List.inj_on_of_nodup_map distinct member inside (of_decide_eq_true named)]

namespace Schema.Grounded

variable {s : Schema} (grounded : s.Grounded)

include grounded

theorem resolved_iff {type field : String} :
    FieldMap.contains s.resolvers type field = true ↔
      ∃ fields, (type, fields) ∈ s.document.objects ∧ ∃ f ∈ fields, f.name = field := by
  constructor
  · intro contained
    obtain ⟨r, resolves⟩ := FieldMap.contains_iff.mp contained
    obtain ⟨t, fields, f, declared, object, last, _⟩ := grounded.serves resolves
    obtain ⟨inside, named⟩ := last?_some last
    exact ⟨fields, Document.mem_objects_of_type? declared object, f, inside, of_decide_eq_true named⟩
  · rintro ⟨fields, known, f, inside, rfl⟩
    obtain ⟨t, declared, rfl, object⟩ := Document.mem_objects.mp known
    obtain ⟨derived, derives, resolvers⟩ := grounded.derived
    rw [resolvers]
    exact Document.derive_contains derives grounded.named.nodup declared object inside

-- A field of the query root takes an id, and the only argument of a mutation field is an object.
theorem apart {fields : List FieldDef}
    (known : (s.document.query, fields) ∈ s.document.objects) {f : FieldDef} (inside : f ∈ fields) :
    s.document.mutation ≠ some s.document.query := by
  intro both
  have own : (s.document.objectFields? s.document.query).getD [] = fields := by
    rw [Document.objectFields?_of_mem grounded.named.nodup known, Option.getD_some]
  obtain ⟨derived, derives, _⟩ := grounded.derived
  obtain ⟨roots, rooted, derives⟩ := Document.bind_ok derives
  obtain ⟨_, _, derives⟩ := Document.bind_ok derives
  obtain ⟨mutations, mutated, _⟩ := Document.bind_ok derives
  simp only [Document.mutationFields, both] at mutated
  obtain ⟨e, read⟩ := Document.mapM_ok rooted (own ▸ inside)
  obtain ⟨e', written⟩ := Document.mapM_ok mutated (own ▸ inside)
  obtain ⟨plan, _, mutates⟩ := Document.mutationField_mutates written
  exact grounded.rooted_unwriting read mutates

-- A field that is declared once has the resolver that its declaration gave rise to.
theorem serves_mem {type : String} {fields : List FieldDef}
    (known : (type, fields) ∈ s.document.objects) (distinct : (fields.map FieldDef.name).Nodup)
    {f : FieldDef} (inside : f ∈ fields) :
    ∃ r, FieldMap.get? s.resolvers type f.name = some r ∧ s.document.Serves f type r := by
  obtain ⟨r, resolves⟩ :=
    FieldMap.contains_iff.mp (grounded.resolved_iff.mpr ⟨fields, known, f, inside, rfl⟩)
  obtain ⟨t, fields', f', declared, object, last, serves⟩ := grounded.serves resolves
  have same : fields' = fields := by
    have shown := Document.objectFields?_of_mem grounded.named.nodup known
    rw [Document.objectFields?, declared] at shown
    simpa [TypeDef.objectFields?, object] using shown
  rw [same, last?_nodup distinct inside] at last
  obtain rfl := Option.some.inj last
  exact ⟨r, resolves, serves⟩

end Schema.Grounded

-- What a field is served by tells what its type is.
theorem Document.Serves.plays {d : Document} (parted : d.Parted) {f : FieldDef} {type : String}
    {r : Resolver} (serves : d.Serves f type r) :
    match r with
    | .root _ _ | .mutation _ => d.Plays type .root
    | .value => d.Plays type .entry
    | .reference _ _ => d.Plays type .table
    | .column _ => d.Plays type .table ∨ d.Plays type .entry := by
  cases serves with
  | root => simp [Plays, isRoot]
  | column member _ _ => exact .inl ((parted.tables _ _).mp member).2
  | reference member _ _ => exact ((parted.tables _ _).mp member).2
  | shown member _ _ => exact .inr ((parted.entries _ _).mp member).2
  | value member _ _ => exact ((parted.entries _ _).mp member).2
  | mutation root _ => simp [Plays, isRoot, root]

theorem Blueprint.covers {source : String} {b : Blueprint}
    (accepted : Blueprint.read source = .ok b)
    (distinct : ∀ type fields, (type, fields) ∈ b.document.objects →
      (fields.map FieldDef.name).Nodup) : b.Covers := by
  have grounded := Blueprint.unchecked_grounded accepted
  obtain ⟨parsed, _, placed⟩ := read_parts accepted
  have parted : b.document.Parted := Document.parted parsed
  have alone {type : String} {fields : List FieldDef} {role role' : Role}
      (known : (type, fields) ∈ b.document.objects) (plays : b.document.Plays type role)
      (plays' : b.document.Plays type role') : role = role' :=
    (parted.role type fields known).unique plays plays'
  have served {type : String} {fields : List FieldDef} {f : FieldDef}
      (known : (type, fields) ∈ b.document.objects) (inside : f ∈ fields) :
      ∃ r, FieldMap.get? b.resolvers type f.name = some r ∧ b.document.Serves f type r :=
    grounded.serves_mem known (distinct type fields known) inside
  refine ⟨parted, fun _ _ => grounded.resolved_iff, ?_, ?_, ?_, ?_, ?_, ?_⟩
  · intro type field
    refine Iff.trans ?_ grounded.resolved_iff
    rw [placed, FieldMap.contains, HookMap.get?_places]
    change _ ↔ FieldMap.contains b.resolvers type field = true
    cases FieldMap.contains b.resolvers type field <;> simp
  · rintro type fields known some ⟨rfl, both⟩
    obtain ⟨f, rest, rfl⟩ := List.exists_cons_of_ne_nil some
    exact grounded.apart known List.mem_cons_self both
  · intro fields known f inside
    obtain ⟨r, resolves, serves⟩ := served known inside
    have root : b.document.Plays b.document.query .root := by simp [Document.Plays, Document.isRoot]
    have plays := serves.plays parted
    rw [resolves]
    cases serves with
    | root classified rows => exact ⟨_, _, classified, rows, rfl⟩
    | column member _ _ => cases alone known root ((parted.tables _ _).mp member).2
    | reference => cases alone known root plays
    | shown member _ _ => cases alone known root ((parted.entries _ _).mp member).2
    | value => cases alone known root plays
    | mutation both _ => exact absurd both (grounded.apart known inside)
  · intro type fields named known f inside
    obtain ⟨r, resolves, serves⟩ := served known inside
    have root : b.document.Plays type .root := by simp [Document.Plays, Document.isRoot, named]
    have plays := serves.plays parted
    rw [resolves]
    cases serves with
    | root => exact absurd named (grounded.apart known inside)
    | column member _ _ => cases alone known root ((parted.tables _ _).mp member).2
    | reference => cases alone known root plays
    | shown member _ _ => cases alone known root ((parted.entries _ _).mp member).2
    | value => cases alone known root plays
    | mutation _ mutates => exact ⟨_, mutates, rfl⟩
  · intro type fields known entry f inside
    obtain ⟨r, resolves, serves⟩ := served known inside
    have plays := serves.plays parted
    rw [resolves]
    cases serves with
    | root => cases alone known entry plays
    | column member _ _ => cases alone known entry ((parted.tables _ _).mp member).2
    | reference => cases alone known entry plays
    | shown _ _ other => rw [if_neg other]
    | value _ _ named => rw [if_pos named]
    | mutation => cases alone known entry plays
  · intro type fields known table f inside
    obtain ⟨r, resolves, serves⟩ := served known inside
    have plays := serves.plays parted
    rw [resolves]
    cases serves with
    | root => cases alone known table plays
    | column _ classified scalar => exact ⟨_, classified, by rw [if_pos scalar]⟩
    | reference _ classified rows => exact ⟨_, classified, by rw [if_neg rows]⟩
    | shown member _ _ => cases alone known table ((parted.entries _ _).mp member).2
    | value => cases alone known table plays
    | mutation => cases alone known table plays

-- Roots of their own names, so that a type may be called like the usual one and still be a table. A
-- type around an entry type is a table, too, and so is what a mutation shows.
def shelves : String :=
  Overview.ask "schema" ["query: Reads", "mutation: Writes"] ++
  Overview.ask "type Reads" ["book(id: ID): Stamped"] ++
  Overview.ask "type Query" ["next: [Query]"] ++
  Overview.ask "type Stamped" ["value: Query", "versionstamp: ID"] ++
  Overview.ask "type Sealed" ["value: Stamped", "versionstamp: ID"] ++
  Overview.ask "type Writes" ["write(input: Write): Receipt"] ++
  Overview.ask "type Receipt" ["versionstamp: ID"] ++
  Overview.ask "input Write" ["add: New @create(table: \"Query\")"] ++
  Overview.ask "input New" ["id: ID"]

theorem shelves_covers : ∃ b, Blueprint.read shelves = .ok b ∧
    (∀ type fields, (type, fields) ∈ b.document.objects → (fields.map FieldDef.name).Nodup) ∧
    b.document.Plays "Query" .table ∧ b.document.Plays "Stamped" .entry ∧
    b.document.Plays "Sealed" .table ∧ b.document.Plays "Receipt" .table ∧ b.Covers := by
  have shown : ((Blueprint.read shelves).toOption.map fun b =>
      (b.document.objects.all fun o => decide (o.2.map FieldDef.name).Nodup) &&
        ["Query", "Sealed", "Receipt"].all b.document.isTable && b.document.isEntry "Stamped") =
      some true := by
    rw [Blueprint.read_toList]
    simp only [shelves, String.toList_append, Overview.toList_ask]
    decide +kernel
  obtain ⟨b, made, shown⟩ := Option.map_eq_some_iff.mp shown
  simp only [Bool.and_eq_true, List.all_eq_true, decide_eq_true_eq, List.mem_cons,
    List.not_mem_nil, or_false, forall_eq_or_imp, forall_eq] at shown
  obtain ⟨⟨distinct, query, outer, receipt⟩, entry⟩ := shown
  have read := ok_of_toOption made
  have once : ∀ type fields, (type, fields) ∈ b.document.objects →
      (fields.map FieldDef.name).Nodup := fun type fields => distinct (type, fields)
  exact ⟨b, read, once, query, entry, outer, receipt, Blueprint.covers read once⟩

end RowGraph
