import RowGraph.Proofs.Schema.Built
import RowGraph.Proofs.Schema.Shape
/-!
Entry types of a schema, and the types of fields that have a resolver. Of the declared object types
the roots alone have no kind. Main statements: a field whose type is an entry type has a resolver
that looks rows of the wrapped table up and shows them as entries, and what a field with a resolver
shows is of a kind that can be shown, and so it is never of a root type.
-/

namespace RowGraph

structure Document.Wraps (d : Document) (entry table : String) : Prop where
  declared : ∃ t fields, d.type? entry = some t ∧ t.body = .object fields ∧
    d.wrapped? fields = some table
  notRoot : d.isRoot entry = false
  -- What is wrapped is no entry type itself.
  table : d.entryTable? table = none

theorem Members.mem_of_get? {name : String} {members : List (String × α)} {a : α}
    (found : get? name members = some a) : (name, a) ∈ members := by
  obtain ⟨⟨name', a'⟩, there, rfl⟩ := Option.map_eq_some_iff.mp found
  obtain rfl : name' = name := by simpa using List.find?_some there
  exact List.mem_of_find?_eq_some there

theorem Members.get?_of_mem {name : String} {members : List (String × α)} {a : α}
    (nodup : (members.map Prod.fst).Nodup) (member : (name, a) ∈ members) :
    get? name members = some a :=
  Option.map_eq_some_iff.mpr ⟨(name, a), (find?_iff_mem nodup).mpr ⟨member, rfl⟩, rfl⟩

namespace Schema.Grounded

variable {s : Schema} (grounded : s.Grounded)

include grounded

theorem mem_wrappers {entry table : String}
    (wrapped : s.document.entryTable? entry = some table) :
    (entry, table) ∈ s.document.wrappers ∧
      ∀ w ∈ s.document.wrappers, w.1 ≠ table := by
  unfold Document.entryTable? at wrapped
  rw [grounded.entries] at wrapped
  obtain ⟨member, plain⟩ := List.mem_filter.mp (Members.mem_of_get? wrapped)
  refine ⟨member, fun w found same => ?_⟩
  simp only [Bool.not_eq_true', List.any_eq_false, decide_eq_true_eq] at plain
  exact plain w found same

theorem wraps {entry table : String} (wrapped : s.document.entryTable? entry = some table) :
    s.document.Wraps entry table := by
  obtain ⟨member, plain⟩ := grounded.mem_wrappers wrapped
  obtain ⟨t, declared, shown⟩ := List.mem_filterMap.mp member
  split at shown
  · rename_i fields object
    split at shown
    · cases shown
    · rename_i notRoot
      obtain ⟨held, holds, same⟩ := Option.map_eq_some_iff.mp shown
      obtain ⟨rfl, rfl⟩ := Prod.mk.inj same
      refine ⟨⟨t, fields, ?_, object, holds⟩, by simpa using notRoot, ?_⟩
      · exact Document.find?_of_nodup grounded.named.nodup declared
      · cases other : s.document.entryTable? held with
        | none => rfl
        | some inner => exact absurd rfl (plain _ (grounded.mem_wrappers other).1)
  · cases shown

theorem type?_own {name : String} {t : TypeDef} (declared : s.document.type? name = some t) :
    builtinScalars.contains name = false := by
  have same : t.name = name := by simpa using List.find?_some declared
  rw [← same]
  exact grounded.named.own t (List.mem_of_find?_eq_some declared)

theorem kindOf_entry {entry table : String} (wrapped : s.document.entryTable? entry = some table) :
    s.document.kindOf entry = some .entry := by
  obtain ⟨⟨t, fields, declared, object, _⟩, notRoot, _⟩ := grounded.wraps wrapped
  have known : s.document.isEntry entry = true := by
    unfold Document.isEntry
    rw [wrapped]
    rfl
  unfold Document.kindOf
  rw [grounded.type?_own declared, declared]
  simp only [Bool.false_eq_true, if_false, object, notRoot, known, if_true]

-- The fields of an entry type: one that is not the value is of a built-in scalar.
theorem entry_field {entry table : String} {fields : List FieldDef} {f : FieldDef}
    (wrapped : s.document.entryTable? entry = some table)
    (known : (entry, fields) ∈ s.document.entryObjects) (inside : f ∈ fields) :
    s.document.wrapped? fields = some table ∧
      (f.name ≠ valueField → builtinScalars.contains f.type.name = true) := by
  obtain ⟨⟨t, fields', declared, object, holds⟩, _, _⟩ := grounded.wraps wrapped
  have shown := Document.objectFields?_of_mem grounded.named.nodup (List.mem_of_mem_filter known)
  have same : fields' = fields := by
    rw [Document.objectFields?, declared] at shown
    simpa [TypeDef.objectFields?, object] using shown
  subst same
  refine ⟨holds, fun other => ?_⟩
  unfold Document.wrapped? at holds
  split at holds
  · rename_i all
    have form := List.all_eq_true.mp all f inside
    simp only [Document.holdsRow, Document.holdsStamp, Document.holdsId, other, decide_false,
      Bool.false_and, Bool.false_or, Bool.and_eq_true, Bool.or_eq_true, decide_eq_true_eq] at form
    rcases form.2 with ⟨_, string | number⟩ | ⟨_, number⟩
    · rw [string]; decide
    · rw [number]; decide
    · rw [number]; decide
  · cases holds

-- The last value of an entry type is of the type that it wraps.
theorem entry_value {entry table : String} {fields : List FieldDef} {f : FieldDef}
    (wrapped : s.document.entryTable? entry = some table)
    (known : (entry, fields) ∈ s.document.entryObjects)
    (last : last? (fun g => g.name = valueField) fields = some f) : f.type.name = table := by
  have holds := (grounded.entry_field wrapped known (last?_some last).1).1
  unfold Document.wrapped? at holds
  split at holds
  · rename_i all
    split at holds
    · -- Among the fields of an entry type only those called like the value hold the row.
      have same : fields.filter s.document.holdsRow = fields.filter fun g => g.name = valueField := by
        refine List.filter_congr fun g member => ?_
        have form := List.all_eq_true.mp all g member
        by_cases value : g.name = valueField
        · simpa [Document.holdsStamp, Document.holdsId, value, valueField, stampField, idColumn]
            using (Bool.and_eq_true_iff.mp form).2
        · simp [Document.holdsRow, value]
      rw [same, List.getLast?_eq_head?_reverse, ← List.filter_reverse, List.head?_filter] at holds
      change (last? (fun g => decide (g.name = valueField)) fields).map _ = _ at holds
      rw [last] at holds
      exact Option.some.inj holds
    · cases holds
  · cases holds

-- The value of an entry is of the type that the entry wraps.
theorem value_held {type field : String} {t : TypeDef} {f : FieldDef}
    (known : s.catalog.type? type = some t) (declared : t.field? field = some f)
    (resolves : FieldMap.get? s.resolvers type field = some .value) :
    s.document.entryTable? type = some f.type.name := by
  obtain ⟨t₀, fields, f₀, known₀, object, last, serves⟩ := grounded.serves resolves
  obtain rfl : t₀.distinct = t := Option.some.inj ((grounded.type? known₀).symm.trans known)
  rw [TypeDef.field?_distinct object, last] at declared
  obtain rfl : f₀.distinctArguments = f := Option.some.inj declared
  cases serves with
  | @value _ fields' inside _ named =>
    obtain ⟨held, holds⟩ := Option.isSome_iff_exists.mp (List.mem_filter.mp inside).2
    have same : fields' = fields := by
      have shown := Document.objectFields?_of_mem grounded.named.nodup
        (List.mem_of_mem_filter inside)
      rw [Document.objectFields?, known₀] at shown
      simpa [TypeDef.objectFields?, object, eq_comm] using shown
    subst same
    obtain rfl : f₀.name = field := by simpa using (last?_some last).2
    rw [named] at last
    have held' : f₀.type.name = held := grounded.entry_value holds inside last
    exact holds.trans (congrArg some held'.symm)

-- A field of an entry type shows rows of the wrapped table as entries.
theorem leads {type field : String} {t : TypeDef} {f : FieldDef} {r : Resolver} {table : String}
    (known : s.catalog.type? type = some t) (declared : t.field? field = some f)
    (resolves : FieldMap.get? s.resolvers type field = some r)
    (wrapped : s.document.entryTable? f.type.name = some table) :
    ∃ shape, r.shape? = some shape ∧ shape.table? = some table ∧ shape.entry = true := by
  obtain ⟨t₀, fields, f₀, known₀, object, last, serves⟩ := grounded.serves resolves
  obtain rfl : t₀.distinct = t := Option.some.inj ((grounded.type? known₀).symm.trans known)
  have same := declared
  rw [TypeDef.field?_distinct object, last] at same
  obtain rfl : f₀.distinctArguments = f := Option.some.inj same
  have entry := grounded.kindOf_entry wrapped
  have shaped {shape : FieldShape}
      (classified : FieldShape.classify s.document.lookup f₀.type = .ok shape) :
      shape.table? = some table ∧ shape.entry = true :=
    FieldShape.classify_entry classified entry wrapped
  have own : builtinScalars.contains f₀.type.name = false := by
    obtain ⟨⟨t, _, found, _⟩, _, _⟩ := grounded.wraps wrapped
    exact grounded.type?_own found
  cases serves with
  | root classified _ => exact ⟨_, rfl, shaped classified⟩
  | reference _ classified _ => exact ⟨_, rfl, shaped classified⟩
  | column _ classified scalar =>
    have named := (shaped classified).1
    rw [FieldShape.table?, scalar] at named
    cases named
  | shown inside member other =>
    obtain ⟨held, holds⟩ := Option.isSome_iff_exists.mp (List.mem_filter.mp inside).2
    have scalar := (grounded.entry_field holds inside member).2 other
    rw [own] at scalar
    cases scalar
  | value _ _ _ =>
    have none := (grounded.wraps (grounded.value_held known declared resolves)).table
    cases none.symm.trans wrapped
  | mutation _ mutates =>
    obtain ⟨shape, classified, accepted⟩ := Document.bind_ok mutates.result
    obtain ⟨named, shown⟩ := shaped classified
    unfold FieldShape.table? at named
    split at accepted
    · rename_i scalar
      rw [scalar] at named
      cases named
    · rw [if_pos shown] at accepted
      cases accepted
    · cases accepted

-- The other fields of an entry type are columns of the entry.
theorem entry_column {entry field table : String} {r : Resolver}
    (wrapped : s.document.entryTable? entry = some table) (other : field ≠ valueField)
    (resolves : FieldMap.get? s.resolvers entry field = some r) : r = .column field := by
  obtain ⟨_, fields, f, _, _, last, serves⟩ := grounded.serves resolves
  obtain rfl : f.name = field := by simpa using (last?_some last).2
  have notRoot := (grounded.wraps wrapped).notRoot
  have noTable {fields : List FieldDef} (member : (entry, fields) ∈ s.document.tables) : False := by
    have plain := (List.mem_filter.mp member).2
    simp [Document.isEntry, wrapped] at plain
  cases serves with
  | root => simp [Document.isRoot] at notRoot
  | column member _ _ => exact (noTable member).elim
  | reference member _ _ => exact (noTable member).elim
  | shown _ _ _ => rfl
  | value _ _ named => exact absurd named other
  | mutation root _ => simp [Document.isRoot, root] at notRoot

theorem kindOf_object {type : String} {t : TypeDef} {fields : List FieldDef}
    (declared : s.document.type? type = some t) (object : t.body = .object fields) :
    s.document.kindOf type = if s.document.isRoot type then none
      else some (if s.document.isEntry type then .entry else .table) := by
  unfold Document.kindOf
  rw [grounded.type?_own declared, declared]
  simp only [Bool.false_eq_true, if_false, object]
  split
  · rfl
  · split <;> rfl

-- The row of an entry is of an object type that is no root.
theorem held_object {entry table : String} (wrapped : s.document.entryTable? entry = some table) :
    s.document.isRoot table = false ∧
      ∃ t fields, s.document.type? table = some t ∧ t.body = .object fields := by
  obtain ⟨⟨t, fields, _, _, holds⟩, _, _⟩ := grounded.wraps wrapped
  unfold Document.wrapped? at holds
  split at holds
  · split at holds
    · obtain ⟨f, last, rfl⟩ := Option.map_eq_some_iff.mp holds
      have row := (List.mem_filter.mp (List.mem_of_getLast? last)).2
      simp only [Document.holdsRow, Bool.and_eq_true, Bool.not_eq_true'] at row
      obtain ⟨inner, object⟩ := Option.isSome_iff_exists.mp row.1.2
      obtain ⟨t, declared, object⟩ := Option.bind_eq_some_iff.mp object
      unfold TypeDef.objectFields? at object
      split at object
      · rename_i body
        exact ⟨row.2, t, _, declared, body⟩
      · cases object
    · cases holds
  · cases holds

theorem kindOf_field {type field : String} {t : TypeDef} {f : FieldDef} {r : Resolver}
    (known : s.catalog.type? type = some t) (declared : t.field? field = some f)
    (resolves : FieldMap.get? s.resolvers type field = some r) :
    ∃ kind, s.document.kindOf f.type.name = some kind ∧ kind ≠ .input ∧ kind ≠ .abstract := by
  obtain ⟨f₀, rfl, serves⟩ := grounded.meets known declared resolves
  change ∃ kind, s.document.kindOf f₀.type.name = some kind ∧ _
  cases serves with
  | root classified _ => exact FieldShape.classify_kindOf classified
  | column _ classified _ => exact FieldShape.classify_kindOf classified
  | reference _ classified _ => exact FieldShape.classify_kindOf classified
  | shown inside member other =>
    obtain ⟨held, holds⟩ := Option.isSome_iff_exists.mp (List.mem_filter.mp inside).2
    have scalar := (grounded.entry_field holds inside member).2 other
    refine ⟨.leaf, ?_, by simp⟩
    unfold Document.kindOf
    rw [if_pos scalar]
  | value _ _ _ =>
    obtain ⟨plain, t, fields, declared, object⟩ :=
      grounded.held_object (grounded.value_held known declared resolves)
    refine ⟨if s.document.isEntry f₀.type.name then .entry else .table, ?_, ?_⟩
    · have kind := grounded.kindOf_object declared object
      rwa [plain] at kind
    · split <;> simp
  | mutation _ mutates =>
    obtain ⟨shape, classified, _⟩ := Document.bind_ok mutates.result
    exact FieldShape.classify_kindOf classified

end Schema.Grounded

end RowGraph
