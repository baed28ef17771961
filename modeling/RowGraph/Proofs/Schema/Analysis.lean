import RowGraph.Proofs.Schema.Reordering
/-!
The lists of definitions that a document is made of. Every definition is sound by itself, the names
of types are distinct, there is one definition of the roots at most, and the roots are object types.
Main statement: those lists are accepted and no others, and what a document then says of a name is
what the definition of that name says.
-/

namespace RowGraph

namespace Definition

-- The definition of the roots that a definition is.
def schema : Definition → List RootsDef
  | .roots d => [d]
  | .type _ | .directive _ => []

-- Some definition makes the name an object type.
def DefinesObject (defs : List Definition) (name : String) : Prop :=
  ∃ t ∈ defs.flatMap types, t.name = name ∧ ∃ fields, t.body = .object fields

-- The roots are called as the definition of the roots says, or else by their usual names. The usual
-- name of the mutation root counts only if it is defined.
def Names (defs : List Definition) (query : String) (mutation : Option String) : Prop :=
  defs.flatMap schema = [] ∧ query = "Query" ∧
      mutation = (if (defs.flatMap types).any fun t => t.name = "Mutation" then some "Mutation"
        else none) ∨
    ∃ d, defs.flatMap schema = [d] ∧ d.query = some query ∧ d.mutation = mutation

structure Admits (defs : List Definition) (query : String) (mutation : Option String) : Prop where
  sound : ∀ d ∈ defs, d.Sound
  distinct : ((defs.flatMap types).map TypeDef.name).Nodup
  roots : Names defs query mutation
  query : DefinesObject defs query
  mutation : ∀ m, mutation = some m → DefinesObject defs m

theorem named_schema (defs : List Definition) : defs.flatMap named =
    (defs.flatMap schema).flatMap fun d => d.query.toList.map fun query => (query, d.mutation) := by
  rw [List.flatMap_assoc]
  congr 1
  funext d
  cases d <;> simp [named, schema]

theorem schema_query {defs : List Definition} (sound : ∀ d ∈ defs, d.Sound) {d : RootsDef}
    (member : d ∈ defs.flatMap schema) : ∃ query, d.query = some query := by
  obtain ⟨definition, listed, inside⟩ := List.mem_flatMap.mp member
  cases definition with
  | roots d' =>
    obtain rfl := List.mem_singleton.mp inside
    exact Option.isSome_iff_exists.mp (sound _ listed).2.2
  | type | directive => cases inside

-- Sound definitions name the roots as often as there are definitions of the roots.
theorem named_iff {defs : List Definition} (sound : ∀ d ∈ defs, d.Sound)
    {roots : Option (String × Option String)} :
    roots.toList = defs.flatMap named ↔ defs.flatMap schema = [] ∧ roots = none ∨
      ∃ d query, defs.flatMap schema = [d] ∧ d.query = some query ∧
        roots = some (query, d.mutation) := by
  rw [named_schema]
  have query : ∀ d ∈ defs.flatMap schema, ∃ query, d.query = some query :=
    fun _ => schema_query sound
  generalize defs.flatMap schema = schemas at query
  constructor
  · intro given
    match schemas, query, given with
    | [], _, given => exact .inl ⟨rfl, by simpa using given⟩
    | [d], query, given =>
      obtain ⟨name, named⟩ := query d List.mem_cons_self
      refine .inr ⟨d, name, rfl, named, Document.toList_inj ?_⟩
      simpa [named] using given
    | d :: e :: rest, query, given =>
      obtain ⟨name, named⟩ := query d List.mem_cons_self
      obtain ⟨name', named'⟩ := query e (List.mem_cons_of_mem _ List.mem_cons_self)
      cases roots <;> simp [named, named'] at given
  · rintro (⟨rfl, rfl⟩ | ⟨d, name, rfl, named, rfl⟩)
    · rfl
    · simp [named]

end Definition

namespace Document

open Definition

variable {defs : List Definition}

theorem Accepted.rootNames_iff {a : Accepted} (takes : Takes {} defs a) {query : String}
    {mutation : Option String} :
    a.rootNames = (query, mutation) ↔ Names defs query mutation := by
  have types : a.types = defs.flatMap Definition.types := takes.types
  have roots := (named_iff takes.sound).mp takes.roots
  rcases roots with ⟨none, absent⟩ | ⟨d, name, single, named, present⟩
  · simp only [rootNames, absent, types, Names, none, Prod.mk.injEq]
    constructor
    · rintro ⟨rfl, rfl⟩
      exact .inl ⟨trivial, rfl, rfl⟩
    · rintro (⟨_, rfl, rfl⟩ | ⟨_, one, _⟩)
      · exact ⟨rfl, rfl⟩
      · cases one
  · simp only [rootNames, present, Names, single, Prod.mk.injEq]
    constructor
    · rintro ⟨rfl, rfl⟩
      exact .inr ⟨d, rfl, named, rfl⟩
    · rintro (⟨absent, _⟩ | ⟨_, ⟨⟩, named', rfl⟩)
      · cases absent
      · exact ⟨Option.some.inj (named.symm.trans named'), rfl⟩

theorem definesObject_iff {d : Document} (types : d.types = defs.flatMap Definition.types)
    (nodup : (d.types.map TypeDef.name).Nodup) {name : String} :
    (d.objectFields? name).isSome = true ↔ DefinesObject defs name := by
  simp only [Option.isSome_iff_exists, objectFields?_iff nodup, mem_objects, DefinesObject, types]
  constructor
  · rintro ⟨fields, t, declared, named, object⟩
    exact ⟨t, declared, named, fields, object⟩
  · rintro ⟨t, declared, named, fields, object⟩
    exact ⟨fields, t, declared, named, object⟩

-- Accepted definitions are the admitted ones, under the names of the roots.
theorem ofDefinitions_admits {d : Document} (accepted : ofDefinitions defs = .ok d) :
    Admits defs d.query d.mutation ∧ d.types = defs.flatMap Definition.types := by
  obtain ⟨a, added, rfl, query, mutation⟩ := ofDefinitions_iff.mp accepted
  have takes := (Accepted.addAll_takes (a := {}) List.nodup_nil).mp added
  have types : a.document.types = defs.flatMap Definition.types := takes.types
  have object {name : String} :
      (a.document.objectFields? name).isSome = true ↔ DefinesObject defs name :=
    definesObject_iff types takes.nodup
  exact ⟨⟨takes.sound, types ▸ takes.nodup, (Accepted.rootNames_iff takes).mp rfl, object.mp query,
    fun m named => object.mp (mutation m named)⟩, types⟩

theorem ofDefinitions_of_admits {query : String} {mutation : Option String}
    (admits : Admits defs query mutation) :
    ∃ d, ofDefinitions defs = .ok d ∧ d.query = query ∧ d.mutation = mutation := by
  obtain ⟨roots, given⟩ : ∃ roots : Option (String × Option String),
      roots.toList = defs.flatMap named := by
    rcases admits.roots with ⟨none, _⟩ | ⟨d, single, named, _⟩
    · exact ⟨_, (named_iff admits.sound).mpr (.inl ⟨none, rfl⟩)⟩
    · exact ⟨_, (named_iff admits.sound).mpr (.inr ⟨d, query, single, named, rfl⟩)⟩
  let a : Accepted := ⟨roots, defs.flatMap Definition.types⟩
  have takes : Accepted.Takes {} defs a := ⟨admits.sound, given, rfl, admits.distinct⟩
  have names := (Accepted.rootNames_iff takes).mpr admits.roots
  have query : a.document.query = query := congrArg Prod.fst names
  have mutation : a.document.mutation = mutation := congrArg Prod.snd names
  have object {name : String} :
      (a.document.objectFields? name).isSome = true ↔ DefinesObject defs name :=
    definesObject_iff rfl takes.nodup
  refine ⟨a.document, ofDefinitions_iff.mpr ⟨a, ?_, rfl, ?_, fun m named => ?_⟩, query, mutation⟩
  · exact (Accepted.addAll_takes (a := {}) List.nodup_nil).mpr takes
  · exact object.mpr (query ▸ admits.query)
  · exact object.mpr (admits.mutation m (mutation ▸ named))

-- An object type that is no root is a table or an entry type, whatever its name is.
theorem object_rows {d : Document} (named : Named d.types) {type : String} {fields : List FieldDef}
    (declared : (type, fields) ∈ d.objects) (notRoot : d.isRoot type = false) :
    (type, fields) ∈ d.tables ∧ d.kindOf type = some .table ∨
      (type, fields) ∈ d.entryObjects ∧ d.kindOf type = some .entry := by
  rw [kindOf_mem named declared, notRoot]
  cases entry : d.isEntry type with
  | false => exact .inl ⟨List.mem_filter.mpr ⟨declared, by simp [notRoot, entry]⟩, rfl⟩
  | true => exact .inr ⟨List.mem_filter.mpr ⟨declared, entry⟩, rfl⟩

theorem analysis_exact (defs : List Definition) :
    ((∃ d, ofDefinitions defs = .ok d) ↔ ∃ query mutation, Admits defs query mutation) ∧
    ∀ d, ofDefinitions defs = .ok d →
      Admits defs d.query d.mutation ∧
      (∀ t ∈ defs.flatMap Definition.types, d.type? t.name = some t) ∧
      (∀ name t, d.type? name = some t → t ∈ defs.flatMap Definition.types ∧ t.name = name) ∧
      ∀ t ∈ defs.flatMap Definition.types, t.name = "Query" ∨ t.name = "Mutation" →
        d.isRoot t.name = false → ∀ fields, t.body = .object fields →
          (t.name, fields) ∈ d.tables ∧ d.kindOf t.name = some .table ∨
            (t.name, fields) ∈ d.entryObjects ∧ d.kindOf t.name = some .entry := by
  refine ⟨⟨fun ⟨d, accepted⟩ => ⟨_, _, (ofDefinitions_admits accepted).1⟩,
    fun ⟨_, _, admits⟩ => ?_⟩, fun d accepted => ?_⟩
  · obtain ⟨d, accepted, _⟩ := ofDefinitions_of_admits admits
    exact ⟨d, accepted⟩
  · obtain ⟨admits, types⟩ := ofDefinitions_admits accepted
    have nodup : (d.types.map TypeDef.name).Nodup := types ▸ admits.distinct
    have named : Named d.types := by
      refine ⟨nodup, fun t member => ?_⟩
      rw [types] at member
      obtain ⟨definition, listed, inside⟩ := List.mem_flatMap.mp member
      cases definition with
      | type t' =>
        obtain rfl := List.mem_singleton.mp inside
        exact (admits.sound _ listed).2
      | roots | directive => cases inside
    refine ⟨admits, fun t member => find?_of_nodup nodup (types ▸ member), fun name t found => ?_,
      fun t member _ notRoot fields object => ?_⟩
    · exact ⟨types ▸ List.mem_of_find?_eq_some found, by simpa using List.find?_some found⟩
    · exact object_rows named (mem_objects.mpr ⟨t, types ▸ member, rfl, object⟩) notRoot

end Document

-- A name that would be the usual one of the query root, for what is no object type.
def enumCalledQuery : String :=
  Overview.ask "schema" ["query: Root"] ++
  Overview.ask "type Root" ["book(id: ID!): Book"] ++
  Overview.ask "type Book" ["status: Query"] ++
  Overview.ask "enum Query" ["DRAFT", "FINAL"]

theorem enumCalledQuery_leaf : ∃ defs d t, Definition.readAll? enumCalledQuery = some defs ∧
    Document.ofDefinitions defs = .ok d ∧ t ∈ defs.flatMap Definition.types ∧ t.name = "Query" ∧
    d.isRoot t.name = false ∧ d.kindOf t.name ≠ some .table ∧ d.kindOf t.name ≠ some .entry := by
  have shown : ((Definition.readAll? enumCalledQuery).bind fun defs =>
      (Document.ofDefinitions defs).toOption.bind fun d => (d.type? "Query").map fun _ =>
        (d.isRoot "Query", d.kindOf "Query")) = some (false, some .leaf) := by
    rw [Definition.readAll?_toList]
    simp only [enumCalledQuery, String.toList_append, Overview.toList_ask]
    decide +kernel
  obtain ⟨defs, parsed, shown⟩ := Option.bind_eq_some_iff.mp shown
  obtain ⟨d, made, shown⟩ := Option.bind_eq_some_iff.mp shown
  obtain ⟨t, declared, shown⟩ := Option.map_eq_some_iff.mp shown
  obtain ⟨notRoot, leaf⟩ := Prod.mk.inj shown
  have accepted := ok_of_toOption made
  have named : t.name = "Query" := by simpa using List.find?_some declared
  have member := List.mem_of_find?_eq_some declared
  rw [(Document.ofDefinitions_admits accepted).2] at member
  refine ⟨defs, d, t, parsed, accepted, member, named, ?_⟩
  rw [named, leaf]
  exact ⟨notRoot, by decide, by decide⟩

end RowGraph
