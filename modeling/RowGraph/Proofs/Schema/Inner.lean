import RowGraph.Proofs.Mutation.Queries
/-!
Types whose objects lie inside of a response. No field is of a root type, so below the fields of
the root every field is a column, a reference, or the row of an entry. Main statement: what a field
shows that has a resolver is of such a type.
-/

namespace RowGraph

-- A resolver that starts from its parent row and only reads.
inductive Resolver.Local : Resolver → Prop where
  | column (name : String) : Local (.column name)
  | reference (column : String) (shape : FieldShape) : Local (.reference column shape)
  | value : Local .value

namespace Document

-- The roots are declared object types.
theorem read_roots {source : String} {d : Document} (accepted : read source = .ok d) :
    (d.objectFields? d.query).isSome = true ∧
      ∀ m, d.mutation = some m → (d.objectFields? m).isSome = true := by
  have some {α : Type} {o : Option α} (present : ¬ o.isNone = true) : o.isSome = true :=
    Option.isSome_iff_ne_none.mpr (mt Option.isNone_iff_eq_none.mpr present)
  unfold read at accepted
  split at accepted
  · obtain ⟨a, added, accepted⟩ := bind_ok accepted
    simp only at accepted
    split at accepted
    · cases accepted
    · rename_i query
      split at accepted
      · rename_i m named
        split at accepted
        · cases accepted
        · rename_i mutation
          obtain rfl := Except.ok.inj accepted
          refine ⟨some query, fun m' named' => ?_⟩
          obtain rfl := Option.some.inj (named.symm.trans named')
          exact some mutation
      · rename_i none
        obtain rfl := Except.ok.inj accepted
        exact ⟨some query, fun m named => absurd (none.symm.trans named) (by simp)⟩
  · cases accepted

end Document

namespace Schema

-- No field has a hook.
def Hookless (s : Schema) : Prop :=
  ∀ type field, (FieldMap.get? s.hooks type field).getD [] = []

-- A schema to which no hooks were attached has none: their places are all empty.
theorem hookless_of_build {settings : Settings} {source : String} {s : Schema}
    (accepted : Session.build settings source [] = .ok s) : s.Hookless := by
  obtain ⟨b, b', read, attached, finished⟩ := Session.build_ok accepted
  obtain rfl := Except.ok.inj attached
  obtain ⟨d, _, made⟩ := Document.bind_ok read
  obtain ⟨derived, _, made⟩ := Document.bind_ok made
  obtain rfl := Except.ok.inj made
  unfold Blueprint.finish at finished
  split at finished
  · cases finished
  · obtain rfl := Except.ok.inj finished
    intro type field
    generalize (FieldMap.ofList derived).toList = places
    induction places using List.reverseRecOn with
    | nil => rfl
    | append_singleton rest e ih =>
      rw [List.foldl_append, List.foldl_cons, List.foldl_nil, HookMap.placeholder,
        FieldMap.get?_insert]
      split
      · rename_i same
        rw [← same.1, ← same.2]
        exact ih
      · exact ih

-- What a schema was finished from.
theorem Built.finished {s : Schema} (built : s.Built) :
    ∃ source b, Document.read source = .ok s.document ∧
      b.declared = s.document.types.map TypeDef.distinct ∧ Blueprint.problems b = [] := by
  obtain ⟨settings, source, hooks, accepted⟩ := built
  obtain ⟨b, b', read, attached, finished⟩ := Session.build_ok accepted
  obtain ⟨d, parsed, made⟩ := Document.bind_ok read
  obtain ⟨derived, _, made⟩ := Document.bind_ok made
  obtain rfl := Except.ok.inj made
  obtain ⟨document, _, declared⟩ := Session.attachAll_ok attached
  unfold Blueprint.finish at finished
  split at finished
  · cases finished
  · rename_i sound
    obtain rfl := Except.ok.inj finished
    obtain rfl : b'.document = d := document
    exact ⟨source, b', parsed, declared, sound⟩

-- The roots have no kind.
theorem Built.root_kindless {s : Schema} (built : s.Built) {name : String}
    (root : s.document.isRoot name = true) : s.document.kindOf name = none := by
  obtain ⟨source, _, parsed, _, _⟩ := built.finished
  obtain ⟨query, mutation⟩ := Document.read_roots parsed
  have declared : (s.document.objectFields? name).isSome = true := by
    simp only [Document.isRoot, Bool.or_eq_true, decide_eq_true_eq] at root
    rcases root with rfl | named
    · exact query
    · exact mutation name named
  obtain ⟨fields, declared⟩ := Option.isSome_iff_exists.mp declared
  obtain ⟨t, known, object⟩ := Option.bind_eq_some_iff.mp declared
  unfold TypeDef.objectFields? at object
  split at object
  · rename_i body
    rw [built.grounded.kindOf_object known body, if_pos root]
  · cases object

theorem Built.query_kindless {s : Schema} (built : s.Built) :
    s.document.kindOf s.document.query = none :=
  built.root_kindless (by simp [Document.isRoot])

-- No declared field is called like one of those that every schema has.
theorem Built.unreserved {s : Schema} (built : s.Built) {type field : String} {r : Resolver}
    (resolves : FieldMap.get? s.resolvers type field = some r) : isReserved field = false := by
  obtain ⟨t, fields, f, known, object, last, _⟩ := built.grounded.serves resolves
  obtain ⟨_, b, _, declared, sound⟩ := built.finished
  have shown := TypeDef.field?_distinct object field
  rw [last] at shown
  unfold TypeDef.field? at shown
  have named := List.find?_some shown
  have inside := List.mem_of_find?_eq_some shown
  have declares : t.distinct ∈ b.declared := by
    rw [declared]
    exact List.mem_map_of_mem (List.mem_of_find?_eq_some known)
  -- The checks of a finished blueprint have found nothing, at this field too.
  have checks := List.map_eq_nil_iff.mp (List.append_eq_nil_iff.mp sound).2
  have objects := (List.append_eq_nil_iff.mp (List.append_eq_nil_iff.mp checks).1).2
  have here := List.flatMap_eq_nil_iff.mp objects _ declares
  unfold TypeDef.objectFields? at inside
  split at inside
  · rename_i fields' body
    simp only [body] at here
    have field := List.flatMap_eq_nil_iff.mp (List.append_eq_nil_iff.mp here).2 _ inside
    have unreserved := (List.append_eq_nil_iff.mp (List.append_eq_nil_iff.mp field).1).1
    rw [of_decide_eq_true named] at unreserved
    by_contra reserved
    rw [if_pos (by simpa using reserved)] at unreserved
    cases unreserved
  · cases inside

-- Rows of a type of this name are shown as entries.
def showsEntries (s : Schema) (name : String) : Bool := s.document.kindOf name = some .entry

-- A type that a field can be of.
structure Inner (s : Schema) (t : TypeDef) : Prop where
  known : s.catalog.type? t.name = some t
  kind : s.document.kindOf t.name ≠ none

variable {s : Schema}

-- A field with a resolver is none of those that every schema has.
theorem Built.declared_field (built : s.Built) (t : TypeDef) {type field : String} {r : Resolver}
    (resolves : FieldMap.get? s.resolvers type field = some r) :
    field ≠ "__typename" ∧ (s.catalog.entrances t).find? (fun f => f.name = field) = none := by
  have plain := built.unreserved resolves
  have other {name : String} (reserved : isReserved name = true) : name ≠ field := by
    rintro rfl
    cases reserved.symm.trans plain
  refine ⟨(other (by decide +kernel)).symm, ?_⟩
  unfold Catalog.entrances
  split
  · have schema : "__schema" ≠ field := other (by decide +kernel)
    have type : "__type" ≠ field := other (by decide +kernel)
    simp [Description.entrances, Description.field, schema, type]
  · rfl

theorem Inner.entrances (built : s.Built) {t : TypeDef} (inner : s.Inner t) :
    s.catalog.entrances t = [] := by
  unfold Catalog.entrances
  rw [if_neg]
  intro both
  obtain ⟨_, same⟩ := Bool.and_eq_true_iff.mp both
  have named : t.name = s.document.query := by
    rw [built.grounded.catalog] at same
    exact of_decide_eq_true same
  exact inner.kind (named ▸ built.query_kindless)

namespace Grounded

variable (grounded : s.Grounded)

include grounded

theorem local_of_inner {t : TypeDef} (inner : s.Inner t) {field : String} {r : Resolver}
    (resolves : FieldMap.get? s.resolvers t.name field = some r) : r.Local := by
  obtain ⟨t₀, fields, f, declared, object, _, serves⟩ := grounded.serves resolves
  have other : s.document.isRoot t.name ≠ true := by
    intro root
    have kind := inner.kind
    rw [grounded.kindOf_object declared object, if_pos root] at kind
    exact kind rfl
  generalize t.name = type at serves other
  cases serves with
  | root => simp [Document.isRoot] at other
  | column _ _ _ => exact .column _
  | reference _ _ _ => exact .reference _ _
  | shown _ _ _ => exact .column _
  | value _ _ _ => exact .value
  | mutation root _ => simp [Document.isRoot, root] at other

theorem inner_of_field {type field : String} {t inside : TypeDef} {f : FieldDef} {r : Resolver}
    (known : s.catalog.type? type = some t) (declared : t.field? field = some f)
    (resolves : FieldMap.get? s.resolvers type field = some r)
    (found : s.catalog.type? f.type.name = some inside) : s.Inner inside := by
  refine ⟨Catalog.type?_name found, ?_⟩
  rw [Catalog.name_of_type? found]
  obtain ⟨kind, named, _⟩ := grounded.kindOf_field known declared resolves
  rw [named]
  exact fun none => nomatch none

-- A resolver with a shape has that of the type of its field.
theorem classified {type field : String} {t : TypeDef} {f : FieldDef} {r : Resolver}
    {shape : FieldShape} (known : s.catalog.type? type = some t)
    (declared : t.field? field = some f) (resolves : FieldMap.get? s.resolvers type field = some r)
    (shaped : r.shape? = some shape) : FieldShape.classify s.document.lookup f.type = .ok shape := by
  obtain ⟨f₀, rfl, serves⟩ := grounded.meets known declared resolves
  cases serves with
  | root classified _ => exact Option.some.inj shaped ▸ classified
  | reference _ classified _ => exact Option.some.inj shaped ▸ classified
  | _ => cases shaped

-- The objects of a table type or an entry type are shown by their fields.
theorem object_of_kindOf {name : String}
    (rows : s.document.kindOf name = some .table ∨ s.document.kindOf name = some .entry) :
    ∃ t fields, s.catalog.type? name = some t ∧ t.body = .object fields := by
  unfold Document.kindOf at rows
  split at rows
  · rcases rows with absurd | absurd <;> cases absurd
  · split at rows
    · rcases rows with absurd | absurd <;> cases absurd
    · rename_i t declared
      split at rows
      · rename_i fields object
        refine ⟨t.distinct, (distinctNamed FieldDef.name fields).map FieldDef.distinctArguments,
          grounded.type? declared, ?_⟩
        unfold TypeDef.distinct
        rw [object]
      all_goals rcases rows with absurd | absurd <;> cases absurd

-- The type of a field that shows rows: its name tells in which form.
theorem rows {type field : String} {t : TypeDef} {f : FieldDef} {r : Resolver} {shape : FieldShape}
    (known : s.catalog.type? type = some t) (declared : t.field? field = some f)
    (resolves : FieldMap.get? s.resolvers type field = some r) (shaped : r.shape? = some shape)
    (reference : shape.kind ≠ .scalar) :
    shape.entry = s.showsEntries f.type.name ∧ ∃ inside fields,
      s.catalog.type? f.type.name = some inside ∧ inside.body = .object fields ∧ s.Inner inside := by
  have classified := grounded.classified known declared resolves shaped
  have rows : s.document.kindOf f.type.name = some .table ∧ shape.entry = false ∨
      s.document.kindOf f.type.name = some .entry ∧ shape.entry = true :=
    FieldShape.classify_rows classified reference
  refine ⟨?_, ?_⟩
  · unfold showsEntries
    rcases rows with ⟨kind, form⟩ | ⟨kind, form⟩
    · rw [kind, form]
      rfl
    · rw [kind, form]
      rfl
  · obtain ⟨inside, fields, found, object⟩ :=
      grounded.object_of_kindOf (rows.imp And.left And.left)
    exact ⟨inside, fields, found, object, grounded.inner_of_field known declared resolves found⟩

end Grounded

end Schema

end RowGraph
