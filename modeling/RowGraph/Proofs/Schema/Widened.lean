import RowGraph.Proofs.Schema.Agreement
import RowGraph.Proofs.Schema.Closed
import RowGraph.Proofs.Schema.Hooked
import RowGraph.Proofs.Schema.Inner
import RowGraph.Proofs.Schema.Widening
/-!
Schemas with one more type. Main statement: the catalogs of a schema and of one with one more type
agree on the names that the first document knows, and the fields of its types have the same resolvers
and the same hooks in both.
-/

namespace RowGraph

-- A type of the document, or a built-in scalar.
def Document.Knows (d : Document) (name : String) : Prop :=
  (d.type? name).isSome = true ∨ builtinScalars.contains name = true

-- The types mention nothing but one another and the built-in scalars.
def Document.Whole (d : Document) : Prop :=
  ∀ u ∈ d.types, u.distinct.Within d.Knows

theorem Schema.Built.whole {s : Schema} (built : s.Built) : s.document.Whole := by
  obtain ⟨_, b, _, declared, sound⟩ := built.finished
  have checks := List.map_eq_nil_iff.mp (List.append_eq_nil_iff.mp sound).2
  have complete := (List.append_eq_nil_iff.mp (List.append_eq_nil_iff.mp checks).1).1
  intro u member name mentioned
  have own : u.distinct ∈ b.declared := declared ▸ List.mem_map_of_mem member
  have known := Blueprint.mentions_known complete own mentioned
  unfold Blueprint.type? at known
  rw [declared, List.find?_map] at known
  cases old : s.document.type? name with
  | some t => exact .inl (Option.isSome_of_eq_some old)
  | none =>
    rw [show s.document.types.find?
      ((fun t : TypeDef => decide (t.name = name)) ∘ TypeDef.distinct) = none from old] at known
    obtain ⟨t, found⟩ := Option.isSome_iff_exists.mp known
    have scalar : Catalog.scalars.find? (fun t => t.name = name) = some t := found
    have named : t.name = name := by simpa using List.find?_some scalar
    refine .inr (List.contains_iff_mem.mpr (named ▸ ?_))
    exact Catalog.scalars_name t (List.mem_of_find?_eq_some scalar)

-- The types that describe the schema come after those that the document knows.
theorem Document.type?_catalog {d : Document} (introspection : Bool) {name : String}
    (known : d.Knows name) : (Catalog.ofDocument d introspection).type? name =
      ((d.type? name).map TypeDef.distinct).or (Catalog.scalars.find? fun t => t.name = name) := by
  unfold Catalog.type? Catalog.types Catalog.ofDocument
  rw [List.find?_append, List.find?_append, List.find?_map]
  change ((d.type? name).map TypeDef.distinct).or _ = _
  cases old : d.type? name with
  | some t => rfl
  | none =>
    have scalar := known.resolve_left (by simp [old])
    obtain ⟨t, found⟩ := Option.isSome_iff_exists.mp
      (Catalog.scalars_known name (List.contains_iff_mem.mp scalar))
    rw [found]
    rfl

namespace Document.Widens

variable {d d' : Document} {t : TypeDef} (wide : d.Widens t d')

include wide

theorem old {name : String} (known : d.Knows name) : name ≠ t.name := by
  rcases known with declared | scalar
  · exact wide.not_new declared
  · rintro rfl
    rw [wide.own] at scalar
    cases scalar

theorem catalog (whole : d.Whole) (introspection : Bool) :
    (Catalog.ofDocument d introspection).Agrees d.Knows (Catalog.ofDocument d' introspection) where
  query := wide.query
  mutation := wide.mutation
  introspection := rfl
  type? name known := by
    have same := wide.type? (wide.old known)
    have known' : d'.Knows name := by
      unfold Document.Knows
      rwa [same]
    rw [type?_catalog introspection known, type?_catalog introspection known', same]
  within name u known found := by
    rw [type?_catalog introspection known] at found
    rcases Option.or_eq_some_iff.mp found with declared | ⟨_, scalar⟩
    · obtain ⟨v, first, rfl⟩ := Option.map_eq_some_iff.mp declared
      exact whole v (List.mem_of_find?_eq_some first)
    · intro mentioned inside
      rw [Catalog.scalars_mention u (List.mem_of_find?_eq_some scalar)] at inside
      cases inside
  scalars _ member := .inr (List.contains_iff_mem.mpr member)
  roots kind name root := by
    refine .inl (wide.roots name ?_)
    cases kind with
    | query => simp [Document.isRoot, Option.some.inj root.symm, Catalog.ofDocument]
    | mutation => simp [Document.isRoot, show d.mutation = some name from root]
    | subscription => cases root

end Document.Widens

theorem Catalog.Agrees.of_alike {known : String → Prop} {c c' c₀ : Catalog}
    (same : c.Agrees known c₀) (alike : c'.Alike c₀) : c.Agrees known c' where
  query := alike.query.symm.trans same.query
  mutation := alike.mutation.symm.trans same.mutation
  introspection := alike.introspection.symm.trans same.introspection
  type? name met := (congrFun alike.type? name).symm.trans (same.type? name met)
  within := same.within
  scalars := same.scalars
  roots := same.roots

-- Documents of which the second has one more type, somewhere, and otherwise the same in some order.
def Document.Extends (d : Document) (t : TypeDef) (d' : Document) : Prop :=
  ∃ d₀, d.Widens t d₀ ∧ d'.Reordered d₀

namespace Document.Extends

variable {d d' : Document} {t : TypeDef} (more : d.Extends t d')

include more

theorem newcomer : t ∈ d'.types := by
  obtain ⟨d₀, wide, same⟩ := more
  exact same.types.mem_iff.mpr (wide.types ▸ List.mem_cons_self)

theorem roots : d'.query = d.query ∧ d'.mutation = d.mutation := by
  obtain ⟨d₀, wide, same⟩ := more
  exact ⟨same.query.symm.trans wide.query, same.mutation.symm.trans wide.mutation⟩

theorem kindOf {es : List Derived} (derives : d.derive = .ok es) {name : String}
    (known : d.Knows name) : d'.kindOf name = d.kindOf name := by
  obtain ⟨d₀, wide, same⟩ := more
  rw [← wide.kindOf derives (wide.old known), same.kindOf]

theorem entryTable? {es : List Derived} (derives : d.derive = .ok es) {name : String}
    (known : d.Knows name) : d'.entryTable? name = d.entryTable? name := by
  obtain ⟨d₀, wide, same⟩ := more
  rw [← wide.entryTable? derives (wide.old known), same.entryTable?]

theorem resolvers {es es' : List Derived} (derives : d.derive = .ok es)
    (derives' : d'.derive = .ok es') {type : String} (known : d.Knows type) (field : String) :
    FieldMap.get? (FieldMap.ofList es') type field = FieldMap.get? (FieldMap.ofList es) type field := by
  obtain ⟨d₀, wide, same⟩ := more
  obtain ⟨es₀, derives₀, kept⟩ := same.derive derives'
  rw [← FieldMap.ofList_ext kept]
  exact FieldMap.get?_ofList_type (wide.derive derives derives₀ (wide.old known)) field

theorem catalog (whole : d.Whole) (introspection : Bool) :
    (Catalog.ofDocument d introspection).Agrees d.Knows (Catalog.ofDocument d' introspection) := by
  obtain ⟨d₀, wide, same⟩ := more
  exact (wide.catalog whole introspection).of_alike (same.catalog introspection)

end Document.Extends

theorem Document.ofDefinitions_extends {defs defs' : List Definition} {t : TypeDef} {d d' : Document}
    (accepted : ofDefinitions defs = .ok d) (accepted' : ofDefinitions defs' = .ok d')
    (added : Definition.Reordered (.type t :: defs) defs')
    (usual : defs.flatMap Definition.named = [] → t.name ≠ "Mutation") : d.Extends t d' := by
  obtain ⟨d₀, accepted₀, same⟩ := ofDefinitions_reordered added.symm accepted'
  exact ⟨d₀, ofDefinitions_widens accepted accepted₀ usual, same⟩

-- Built schemas of such documents, with the same hooks.
theorem Session.build_extends {settings : Settings} {source source' : String}
    {hooks : List Attachment} {s s' : Schema} (built : build settings source hooks = .ok s)
    (built' : build settings source' hooks = .ok s') {t : TypeDef}
    (more : s.document.Extends t s'.document) :
    s.catalog.Agrees s.document.Knows s'.catalog ∧ s'.settings = s.settings ∧
      (∀ type field, s.document.Knows type →
        FieldMap.get? s'.resolvers type field = FieldMap.get? s.resolvers type field) ∧
      ∀ type field, s.document.Knows type →
        FieldMap.get? s'.hooks type field = FieldMap.get? s.hooks type field := by
  have grounded := Schema.Built.grounded ⟨settings, source, hooks, built⟩
  have grounded' := Schema.Built.grounded ⟨settings, source', hooks, built'⟩
  have set := build_settings built
  have set' := build_settings built'
  obtain ⟨es, derives, resolvers⟩ := grounded.derived
  obtain ⟨es', derives', resolvers'⟩ := grounded'.derived
  have same type field (known : s.document.Knows type) :
      FieldMap.get? s'.resolvers type field = FieldMap.get? s.resolvers type field := by
    rw [resolvers, resolvers']
    exact more.resolvers derives derives' known field
  refine ⟨?_, set'.trans set.symm, same, fun type field known => ?_⟩
  · rw [grounded.catalog, grounded'.catalog, set, set']
    exact more.catalog (Schema.Built.whole ⟨settings, source, hooks, built⟩) _
  · rw [(build_placed built).2, (build_placed built').2]
    unfold FieldMap.contains
    rw [same type field known]

end RowGraph
