import RowGraph.Proofs.Schema.Entries
import RowGraph.Proofs.Schema.Pieces
/-!
Entry types and the form that they are declared in. A type of the form may hold a row, the row of an
entry, or an object of the form again; the first alone makes an entry type. Main statement: where
what a type holds is no table of the form, the type is an entry type exactly if it has the form and
holds a table.
-/

namespace RowGraph

namespace Document

-- The declared form of entry types: nothing but the row, its stamp, and perhaps its id. Of several
-- fields that hold a row the last counts.
structure Form (d : Document) (fields : List FieldDef) (held : String) : Prop where
  plain : ∀ f ∈ fields, f.type.isList = false ∧ f.arguments = []
  named : ∀ f ∈ fields, f.name = valueField ∨ f.name = stampField ∨ f.name = idColumn
  row : ∀ f ∈ fields, f.name = valueField →
    d.isRoot f.type.name = false ∧ ∃ inner, (f.type.name, inner) ∈ d.objects
  stamp : ∀ f ∈ fields, f.name = stampField → f.type.name = "String" ∨ f.type.name = "ID"
  id : ∀ f ∈ fields, f.name = idColumn → f.type.name = "ID"
  stamped : ∃ f ∈ fields, f.name = stampField
  held : ∃ f, last? (fun g => g.name = valueField) fields = some f ∧ f.type.name = held

-- The type is declared in the form, and holds such objects.
def Formed (d : Document) (type held : String) : Prop :=
  d.isRoot type = false ∧ ∃ fields, (type, fields) ∈ d.objects ∧ d.Form fields held

theorem mem_objects {d : Document} {type : String} {fields : List FieldDef} :
    (type, fields) ∈ d.objects ↔ ∃ t ∈ d.types, t.name = type ∧ t.body = .object fields := by
  unfold objects
  simp only [List.mem_filterMap, Option.map_eq_some_iff, Prod.mk.injEq]
  constructor
  · rintro ⟨t, declared, fields', object, rfl, rfl⟩
    unfold TypeDef.objectFields? at object
    split at object
    · rename_i body
      exact ⟨t, declared, rfl, body.trans (congrArg _ (Option.some.inj object))⟩
    · cases object
  · rintro ⟨t, declared, rfl, body⟩
    exact ⟨t, declared, fields, by simp [TypeDef.objectFields?, body], rfl, rfl⟩

theorem mem_objects_of_type? {d : Document} {type : String} {t : TypeDef} {fields : List FieldDef}
    (declared : d.type? type = some t) (object : t.body = .object fields) :
    (type, fields) ∈ d.objects :=
  mem_objects.mpr ⟨t, List.mem_of_find?_eq_some declared, by simpa using List.find?_some declared,
    object⟩

theorem objects_nodup {d : Document} (nodup : (d.types.map TypeDef.name).Nodup) :
    (d.objects.map Prod.fst).Nodup := by
  rw [List.Nodup, List.pairwise_map] at nodup ⊢
  unfold objects
  rw [List.pairwise_filterMap]
  refine nodup.imp fun {t u} other o shown o' shown' => ?_
  obtain ⟨fields, _, rfl⟩ := Option.map_eq_some_iff.mp shown
  obtain ⟨fields', _, rfl⟩ := Option.map_eq_some_iff.mp shown'
  exact other

theorem objectFields?_iff {d : Document} (nodup : (d.types.map TypeDef.name).Nodup)
    {type : String} {fields : List FieldDef} :
    d.objectFields? type = some fields ↔ (type, fields) ∈ d.objects := by
  refine ⟨fun shown => ?_, objectFields?_of_mem nodup⟩
  obtain ⟨t, declared, object⟩ := Option.bind_eq_some_iff.mp shown
  unfold TypeDef.objectFields? at object
  split at object
  · rename_i body
    exact mem_objects_of_type? declared (body.trans (congrArg _ (Option.some.inj object)))
  · cases object

theorem holdsRow_iff {d : Document} (nodup : (d.types.map TypeDef.name).Nodup) {f : FieldDef} :
    d.holdsRow f = true ↔ f.name = valueField ∧ d.isRoot f.type.name = false ∧
      ∃ inner, (f.type.name, inner) ∈ d.objects := by
  simp only [holdsRow, Bool.and_eq_true, decide_eq_true_eq, Bool.not_eq_true',
    Option.isSome_iff_exists, objectFields?_iff nodup]
  constructor
  · rintro ⟨⟨named, inner⟩, notRoot⟩
    exact ⟨named, notRoot, inner⟩
  · rintro ⟨named, notRoot, inner⟩
    exact ⟨⟨named, inner⟩, notRoot⟩

-- Among fields of the form those called like the value are those that hold the row.
theorem filter_holdsRow {d : Document} {fields : List FieldDef}
    (all : ∀ f ∈ fields, f.name = valueField ↔ d.holdsRow f = true) :
    (fields.filter d.holdsRow).getLast? = last? (fun f => f.name = valueField) fields := by
  have same : fields.filter d.holdsRow = fields.filter fun f => f.name = valueField :=
    List.filter_congr fun f member => by
      rw [Bool.eq_iff_iff, decide_eq_true_eq]
      exact (all f member).symm
  rw [same, List.getLast?_eq_head?_reverse, ← List.filter_reverse, List.head?_filter]
  rfl

-- What the form asks of one field.
theorem fits_iff {d : Document} (nodup : (d.types.map TypeDef.name).Nodup) {f : FieldDef} :
    (isPlain f && (d.holdsRow f || holdsStamp f || holdsId f)) = true ↔
      (f.type.isList = false ∧ f.arguments = []) ∧
        ((f.name = valueField ∧ d.isRoot f.type.name = false ∧
            ∃ inner, (f.type.name, inner) ∈ d.objects) ∨
          (f.name = stampField ∧ (f.type.name = "String" ∨ f.type.name = "ID")) ∨
          (f.name = idColumn ∧ f.type.name = "ID")) := by
  rw [Bool.and_eq_true, Bool.or_eq_true, Bool.or_eq_true, holdsRow_iff nodup, or_assoc]
  simp [isPlain, holdsStamp, holdsId]

theorem form_of_wrapped? {d : Document} (nodup : (d.types.map TypeDef.name).Nodup)
    {fields : List FieldDef} {held : String} (wrapped : d.wrapped? fields = some held) :
    d.Form fields held := by
  unfold wrapped? at wrapped
  split at wrapped
  · rename_i all
    split at wrapped
    · rename_i stamped
      have fits f (member : f ∈ fields) := (fits_iff nodup).mp (List.all_eq_true.mp all f member)
      have row f (member : f ∈ fields) (value : f.name = valueField) :
          d.isRoot f.type.name = false ∧ ∃ inner, (f.type.name, inner) ∈ d.objects := by
        rcases (fits f member).2 with ⟨_, row⟩ | ⟨named, _⟩ | ⟨named, _⟩
        · exact row
        · exact absurd (value.symm.trans named) (by decide)
        · exact absurd (value.symm.trans named) (by decide)
      rw [filter_holdsRow fun f member => ?_] at wrapped
      · refine ⟨fun f member => (fits f member).1, fun f member => ?_, row, fun f member stamp => ?_,
          fun f member id => ?_, ?_, Option.map_eq_some_iff.mp wrapped⟩
        · exact (fits f member).2.imp And.left (Or.imp And.left And.left)
        · rcases (fits f member).2 with ⟨named, _⟩ | ⟨_, typed⟩ | ⟨named, _⟩
          · exact absurd (stamp.symm.trans named) (by decide)
          · exact typed
          · exact absurd (stamp.symm.trans named) (by decide)
        · rcases (fits f member).2 with ⟨named, _⟩ | ⟨named, _⟩ | ⟨_, typed⟩
          · exact absurd (id.symm.trans named) (by decide)
          · exact absurd (id.symm.trans named) (by decide)
          · exact typed
        · obtain ⟨f, member, stamp⟩ := List.any_eq_true.mp stamped
          refine ⟨f, member, ?_⟩
          simp only [holdsStamp, Bool.and_eq_true, decide_eq_true_eq] at stamp
          exact stamp.1
      · rw [holdsRow_iff nodup]
        exact ⟨fun value => ⟨value, row f member value⟩, And.left⟩
    · cases wrapped
  · cases wrapped

theorem wrapped?_of_form {d : Document} (nodup : (d.types.map TypeDef.name).Nodup)
    {fields : List FieldDef} {held : String} (form : d.Form fields held) :
    d.wrapped? fields = some held := by
  have all :
      (fields.all fun f => isPlain f && (d.holdsRow f || holdsStamp f || holdsId f)) = true := by
    refine List.all_eq_true.mpr fun f member => (fits_iff nodup).mpr ⟨form.plain f member, ?_⟩
    rcases form.named f member with value | stamp | id
    · exact .inl ⟨value, form.row f member value⟩
    · exact .inr (.inl ⟨stamp, form.stamp f member stamp⟩)
    · exact .inr (.inr ⟨id, form.id f member id⟩)
  have stamped : fields.any holdsStamp = true := by
    obtain ⟨f, member, stamp⟩ := form.stamped
    refine List.any_eq_true.mpr ⟨f, member, ?_⟩
    simpa [holdsStamp, stamp] using form.stamp f member stamp
  rw [wrapped?, if_pos all, if_pos stamped, filter_holdsRow fun f member => ?_]
  · exact Option.map_eq_some_iff.mpr form.held
  · rw [holdsRow_iff nodup]
    exact ⟨fun value => ⟨value, form.row f member value⟩, And.left⟩

theorem wrapped?_iff {d : Document} (nodup : (d.types.map TypeDef.name).Nodup)
    {fields : List FieldDef} {held : String} :
    d.wrapped? fields = some held ↔ d.Form fields held :=
  ⟨form_of_wrapped? nodup, wrapped?_of_form nodup⟩

theorem mem_wrappers {d : Document} (nodup : (d.types.map TypeDef.name).Nodup)
    {type held : String} : (type, held) ∈ d.wrappers ↔ d.Formed type held := by
  unfold wrappers Formed
  rw [List.mem_filterMap]
  constructor
  · rintro ⟨t, declared, shown⟩
    split at shown
    · rename_i fields object
      split at shown
      · cases shown
      · rename_i notRoot
        obtain ⟨inner, wrapped, same⟩ := Option.map_eq_some_iff.mp shown
        obtain ⟨rfl, rfl⟩ := Prod.mk.inj same
        exact ⟨by simpa using notRoot, fields, mem_objects.mpr ⟨t, declared, rfl, object⟩,
          (wrapped?_iff nodup).mp wrapped⟩
    · cases shown
  · rintro ⟨notRoot, fields, known, form⟩
    obtain ⟨t, declared, rfl, object⟩ := mem_objects.mp known
    refine ⟨t, declared, ?_⟩
    simp [object, notRoot, (wrapped?_iff nodup).mpr form]

theorem wrappers_nodup {d : Document} (nodup : (d.types.map TypeDef.name).Nodup) :
    (d.wrappers.map Prod.fst).Nodup := by
  rw [List.Nodup, List.pairwise_map] at nodup ⊢
  unfold wrappers
  rw [List.pairwise_filterMap]
  refine nodup.imp fun {t u} other w shown w' shown' => ?_
  split at shown
  · split at shown
    · cases shown
    · obtain ⟨_, _, rfl⟩ := Option.map_eq_some_iff.mp shown
      split at shown'
      · split at shown'
        · cases shown'
        · obtain ⟨_, _, rfl⟩ := Option.map_eq_some_iff.mp shown'
          exact other
      · cases shown'
  · cases shown

-- What makes an entry type: it has the form, and what it holds does not.
theorem entryTable?_iff {d : Document} (nodup : (d.types.map TypeDef.name).Nodup)
    (entries : d.entries = d.entryTypes) {type table : String} :
    d.entryTable? type = some table ↔ d.Formed type table ∧ ∀ inner, ¬ d.Formed table inner := by
  have plain : (!d.wrappers.any fun w => w.1 = table) = true ↔ ∀ inner, ¬ d.Formed table inner := by
    simp only [Bool.not_eq_true', List.any_eq_false, decide_eq_true_eq, ← mem_wrappers nodup]
    constructor
    · intro none inner member
      exact none _ member rfl
    · rintro none ⟨type, inner⟩ member rfl
      exact none inner member
  have kept : (type, table) ∈ d.entryTypes ↔
      d.Formed type table ∧ ∀ inner, ¬ d.Formed table inner := by
    rw [entryTypes, List.mem_filter, mem_wrappers nodup, plain]
  rw [entryTable?, entries, ← kept]
  refine ⟨Members.mem_of_get?, Members.get?_of_mem ?_⟩
  exact (wrappers_nodup nodup).sublist (List.filter_sublist.map _)

theorem isEntry_iff {d : Document} {type : String} :
    d.isEntry type = true ↔ ∃ table, d.entryTable? type = some table := Option.isSome_iff_exists

theorem kindOf_mem {d : Document} (named : Named d.types) {type : String} {fields : List FieldDef}
    (declared : (type, fields) ∈ d.objects) :
    d.kindOf type = if d.isRoot type then none
      else some (if d.isEntry type then .entry else .table) := by
  obtain ⟨t, member, rfl, object⟩ := mem_objects.mp declared
  have found : d.type? t.name = some t := find?_of_nodup named.nodup member
  unfold kindOf
  rw [named.own t member, found]
  simp only [Bool.false_eq_true, if_false, object]
  split
  · rfl
  · split <;> rfl

theorem isTable_mem {d : Document} (named : Named d.types) {type : String} {fields : List FieldDef}
    (declared : (type, fields) ∈ d.objects) :
    d.isTable type = (!d.isRoot type && !d.isEntry type) := by
  rw [isTable, kindOf_mem named declared]
  cases d.isRoot type <;> cases d.isEntry type <;> rfl

theorem formed_iff {d : Document} (nodup : (d.types.map TypeDef.name).Nodup) {type : String}
    {fields : List FieldDef} (declared : (type, fields) ∈ d.objects)
    (notRoot : d.isRoot type = false) {held : String} :
    d.Formed type held ↔ d.Form fields held := by
  refine ⟨fun ⟨_, fields', declared', form⟩ => ?_, fun form => ⟨notRoot, fields, declared, form⟩⟩
  obtain rfl : fields' = fields := Option.some.inj
    ((objectFields?_of_mem nodup declared').symm.trans (objectFields?_of_mem nodup declared))
  exact form

-- What a type of the form holds is an object type, and no root.
theorem Form.inner {d : Document} {fields : List FieldDef} {held : String}
    (form : d.Form fields held) :
    d.isRoot held = false ∧ ∃ inner, (held, inner) ∈ d.objects := by
  obtain ⟨f, last, rfl⟩ := form.held
  obtain ⟨member, value⟩ := last?_some last
  exact form.row f member (of_decide_eq_true value)

-- A type of the form holds objects of one type.
theorem Formed.unique {d : Document} (nodup : (d.types.map TypeDef.name).Nodup)
    {type held held' : String} (formed : d.Formed type held) (formed' : d.Formed type held') :
    held = held' := by
  obtain ⟨notRoot, fields, declared, form⟩ := formed
  obtain ⟨f, last, rfl⟩ := form.held
  obtain ⟨g, last', rfl⟩ := ((formed_iff nodup declared notRoot).mp formed').held
  rw [Option.some.inj (last.symm.trans last')]

theorem entry_types_declared {source : String} {d : Document} (accepted : read source = .ok d)
    {type : String} {fields : List FieldDef} (declared : (type, fields) ∈ d.objects)
    (notRoot : d.isRoot type = false) :
    ((∀ held, d.Form fields held → d.isTable held = true → ∀ inner, ¬ d.Formed held inner) →
      ∀ table, d.entryTable? type = some table ↔ d.Form fields table ∧ d.isTable table = true) ∧
    (d.isTable type = true ↔ d.entryTable? type = none) ∧
    (∀ held, d.Form fields held → d.isEntry held = true → d.isTable type = true) ∧
    ∀ table, d.entryTable? type = some table ↔
      d.Form fields table ∧ ∀ inner, ¬ d.Formed table inner := by
  obtain ⟨named, entries⟩ := read_ok accepted
  have computed : ∀ table, d.entryTable? type = some table ↔
      d.Form fields table ∧ ∀ inner, ¬ d.Formed table inner := by
    intro table
    rw [entryTable?_iff named.nodup entries, formed_iff named.nodup declared notRoot]
  have other : d.isTable type = true ↔ d.entryTable? type = none := by
    rw [isTable_mem named declared, notRoot, isEntry]
    cases d.entryTable? type <;> simp
  refine ⟨fun plain table => ?_, other, fun held form entry => ?_, computed⟩
  · rw [computed]
    refine and_congr_right fun form => ?_
    constructor
    · intro formless
      obtain ⟨notRoot, inner, declared⟩ := form.inner
      have ordinary : d.isEntry table = false := by
        rw [Bool.eq_false_iff, ne_eq, isEntry_iff]
        rintro ⟨held, wrapped⟩
        exact formless held ((entryTable?_iff named.nodup entries).mp wrapped).1
      rw [isTable_mem named declared, notRoot, ordinary, Bool.not_false, Bool.and_self]
    · exact plain table form
  · rw [other, Option.eq_none_iff_forall_ne_some]
    intro table wrapped
    obtain ⟨form', formless⟩ := (computed table).mp wrapped
    obtain ⟨inner, holds⟩ := isEntry_iff.mp entry
    obtain ⟨formed, _⟩ := (entryTable?_iff named.nodup entries).mp holds
    have same : held = table := Formed.unique named.nodup
      ⟨notRoot, fields, declared, form⟩ ⟨notRoot, fields, declared, form'⟩
    exact formless inner (same ▸ formed)

-- A type that holds a type, and so on, through as many types of the form, down to one that is not of
-- the form.
inductive Tower (d : Document) : String → Nat → Prop where
  | ground {type : String} {fields : List FieldDef} : (type, fields) ∈ d.objects →
      d.isRoot type = false → (∀ inner, ¬ d.Formed type inner) → Tower d type 0
  | up {type held : String} {n : Nat} : d.Formed type held → Tower d held n →
      Tower d type (n + 1)

theorem Tower.formed {d : Document} {type : String} {n : Nat} (tower : d.Tower type n) :
    n ≠ 0 ↔ ∃ inner, d.Formed type inner := by
  cases tower with
  | ground _ _ formless => exact ⟨fun above => absurd rfl above, fun ⟨inner, formed⟩ =>
      absurd formed (formless inner)⟩
  | up formed _ => exact ⟨fun _ => ⟨_, formed⟩, fun _ => Nat.succ_ne_zero _⟩

-- However high the tower, only its first floor is an entry type, though it is the types on every
-- second floor that hold a table.
theorem entry_of_tower {source : String} {d : Document} (accepted : read source = .ok d)
    {type : String} {n : Nat} (tower : d.Tower type n) :
    (d.isEntry type = true ↔ n = 1) ∧ (d.isTable type = true ↔ n ≠ 1) := by
  obtain ⟨named, entries⟩ := read_ok accepted
  have entry : d.isEntry type = true ↔ n = 1 := by
    rw [isEntry_iff]
    simp only [entryTable?_iff named.nodup entries]
    cases tower with
    | ground _ _ formless =>
      exact ⟨fun ⟨table, formed, _⟩ => absurd formed (formless table), fun same => nomatch same⟩
    | @up _ held n formed below =>
      have onGround : (∀ inner, ¬ d.Formed held inner) ↔ n = 0 := by
        rw [← not_exists, ← below.formed, ne_eq, not_not]
      constructor
      · rintro ⟨table, formed', formless⟩
        obtain rfl := Formed.unique named.nodup formed formed'
        rw [onGround.mp formless]
      · intro first
        exact ⟨held, formed, onGround.mpr (Nat.succ.inj first)⟩
  refine ⟨entry, ?_⟩
  obtain ⟨fields, declared, notRoot⟩ :
      ∃ fields, (type, fields) ∈ d.objects ∧ d.isRoot type = false := by
    cases tower with
    | ground declared notRoot _ => exact ⟨_, declared, notRoot⟩
    | up formed _ =>
      obtain ⟨notRoot, fields, declared, _⟩ := formed
      exact ⟨fields, declared, notRoot⟩
  rw [isTable_mem named declared, notRoot, ne_eq, ← entry]
  simp

end Document

-- Of two types of the form one is around the other.
def wrappedTwice : String :=
  Overview.ask "type Query" ["book(id: ID): Sealed"] ++
  Overview.ask "type Book" ["title: ID"] ++
  Overview.ask "type Stamped" ["value: Book", "versionstamp: ID"] ++
  Overview.ask "type Sealed" ["value: Stamped", "versionstamp: ID"]

theorem wrappedTwice_declared : ∃ d fields, Document.read wrappedTwice = .ok d ∧
    ("Stamped", fields) ∈ d.objects ∧ d.isRoot "Stamped" = false ∧
    (∀ held, d.Form fields held → d.isTable held = true → ∀ inner, ¬ d.Formed held inner) ∧
    (d.entryTable? "Stamped" = some "Book" ↔ d.Form fields "Book" ∧ d.isTable "Book" = true) ∧
    d.entryTable? "Stamped" = some "Book" := by
  have shown : ((Document.read wrappedTwice).toOption.bind fun d =>
      (d.objectFields? "Stamped").map fun fields =>
        (d.isRoot "Stamped", d.entryTable? "Stamped", d.wrappers)) =
      some (false, some "Book", [("Stamped", "Book"), ("Sealed", "Stamped")]) := by
    rw [Document.read_toList]
    simp only [wrappedTwice, String.toList_append, Overview.toList_ask]
    decide +kernel
  obtain ⟨d, made, shown⟩ := Option.bind_eq_some_iff.mp shown
  obtain ⟨fields, declared, shown⟩ := Option.map_eq_some_iff.mp shown
  simp only [Prod.mk.injEq] at shown
  obtain ⟨notRoot, wrapped, wrappers⟩ := shown
  have read := ok_of_toOption made
  have nodup := (Document.read_ok read).1.nodup
  have known := (Document.objectFields?_iff nodup).mp declared
  have plain : ∀ held, d.Form fields held → d.isTable held = true →
      ∀ inner, ¬ d.Formed held inner := by
    intro held form _ inner formed
    have outer := (Document.mem_wrappers nodup).mpr ⟨notRoot, fields, known, form⟩
    have inside := (Document.mem_wrappers nodup).mpr formed
    rw [wrappers] at outer inside
    simp only [List.mem_cons, List.not_mem_nil, or_false, Prod.mk.injEq, true_and] at outer inside
    rcases outer with rfl | ⟨other, _⟩
    · rcases inside with ⟨other, _⟩ | ⟨other, _⟩
      · exact absurd other (by decide)
      · exact absurd other (by decide)
    · exact absurd other (by decide)
  exact ⟨d, fields, read, known, notRoot, plain,
    (Document.entry_types_declared read known notRoot).1 plain "Book", wrapped⟩

end RowGraph
