import RowGraph.Proofs.Schema.Reordering
/-!
Schemas that no request can tell apart. Of the catalog of a schema requests meet what a name stands
for, and the names that are shown, and neither depends on the order of the types. Main statement:
schemas whose definitions come in another order have the same resolvers, hooks and settings, and
catalogs that are alike.
-/

namespace RowGraph

-- Catalogs with the same types, in some order.
structure Catalog.Alike (c c' : Catalog) : Prop where
  query : c'.query = c.query
  mutation : c'.mutation = c.mutation
  introspection : c'.introspection = c.introspection
  type? : c'.type? = c.type?
  isDeclared : c'.isDeclared = c.isDeclared
  shown? : c'.shown? = c.shown?
  names : Assoc.ofList (c'.shown.map fun t => (t.name, ())) =
    Assoc.ofList (c.shown.map fun t => (t.name, ()))

namespace Catalog

-- Whether a type of this name is shown.
def shows (c : Catalog) (name : String) : Bool :=
  isReserved name || builtinScalars.contains name || c.reached.contains name

theorem shown?_eq (c : Catalog) (name : String) :
    c.shown? name = if c.shows name then c.type? name else none := by
  unfold shown? shown Catalog.type?
  rw [List.find?_filter]
  change c.types.find? (fun t => decide (c.shows t.name = true ∧ decide (t.name = name) = true)) = _
  have agree : (fun t : TypeDef => decide (c.shows t.name = true ∧ decide (t.name = name) = true)) =
      fun t => c.shows name && decide (t.name = name) := by
    funext t
    by_cases named : t.name = name <;> simp [named]
  rw [agree]
  cases c.shows name <;> simp

end Catalog

theorem Assoc.lookup_names (names : List (String × Unit)) (name : String) :
    (lookup name (ofList names)).isSome = names.any fun n => n.1 = name := by
  unfold ofList
  induction names using List.reverseRecOn with
  | nil => rfl
  | append_singleton rest n ih =>
    rw [List.foldl_append, List.foldl_cons, List.foldl_nil, lookup_insert, List.any_append]
    by_cases named : n.1 = name
    · subst named
      rw [if_pos Std.ReflCmp.compare_self]
      simp
    · have other : compare name n.1 ≠ .eq := fun h => named (Std.LawfulEqCmp.eq_of_compare h).symm
      rw [if_neg other, ih]
      simp [named]

-- Sorted names have an order of their own.
theorem Assoc.ofList_perm {names names' : List (String × Unit)} (same : names.Perm names') :
    ofList names' = ofList names := by
  refine ext_of_lookup (sorted_ofList _) (sorted_ofList _) fun name => ?_
  have agree : (lookup name (ofList names')).isSome = (lookup name (ofList names)).isSome := by
    rw [lookup_names, lookup_names, any_perm same]
  cases left : lookup name (ofList names') <;> cases right : lookup name (ofList names) <;>
    simp_all

theorem contains_perm {names names' : List String} (same : names.Perm names') :
    names'.contains = names.contains := by
  funext name
  rw [Bool.eq_iff_iff, List.contains_iff_mem, List.contains_iff_mem, same.mem_iff]

theorem Description.typesBeside_perm {names names' : List String} (same : names.Perm names') :
    typesBeside names' = typesBeside names := by
  unfold typesBeside
  rw [contains_perm same]

namespace Catalog

-- What a name stands for does not depend on the order of the declared types.
theorem type?_perm (c : Catalog) {declared : List TypeDef} (same : c.declared.Perm declared)
    (distinct : (c.declared.map TypeDef.name).Nodup) :
    type? { c with declared } = c.type? := by
  funext name
  unfold Catalog.type? types
  rw [List.find?_append, List.find?_append, find?_perm same distinct]

theorem alike_of_perm (c : Catalog) {declared : List TypeDef} (same : c.declared.Perm declared)
    (distinct : (c.declared.map TypeDef.name).Nodup) : c.Alike { c with declared } where
  query := rfl
  mutation := rfl
  introspection := rfl
  type? := c.type?_perm same distinct
  isDeclared := funext fun _ => any_perm same
  shown? := by
    funext name
    rw [shown?_eq, shown?_eq, c.type?_perm same distinct]
    rfl
  names := Assoc.ofList_perm (((same.append_right c.builtins).filter _).map _)

theorem reachable_perm (c : Catalog) {declared : List TypeDef} (same : c.declared.Perm declared)
    (distinct : (c.declared.map TypeDef.name).Nodup) :
    reachable { c with declared } = c.reachable := by
  have mentions : mentions { c with declared } = c.mentions := by
    funext name
    unfold Catalog.mentions
    rw [c.type?_perm same distinct]
    rfl
  unfold reachable
  rw [mentions]
  exact closure_perm ((same.append_right c.builtins).map _) _

end Catalog

theorem Document.Reordered.catalog {d d' : Document} (same : d.Reordered d') (introspection : Bool) :
    (Catalog.ofDocument d introspection).Alike (Catalog.ofDocument d' introspection) := by
  have declared : (d.types.map TypeDef.distinct).Perm (d'.types.map TypeDef.distinct) :=
    same.types.map _
  have distinct : ((d.types.map TypeDef.distinct).map TypeDef.name).Nodup := by
    rw [List.map_map, show TypeDef.name ∘ TypeDef.distinct = TypeDef.name from rfl]
    exact same.named.nodup
  have beside := Description.typesBeside_perm (declared.map TypeDef.name)
  have moved : Catalog.ofDocument d' introspection =
      { Catalog.ofDocument d introspection with declared := d'.types.map TypeDef.distinct } := by
    unfold Catalog.ofDocument
    simp only [same.query, same.mutation, beside, Catalog.mk.injEq, true_and, and_true]
    exact Catalog.reachable_perm
      ⟨d.query, d.mutation, d.types.map TypeDef.distinct, _, [], introspection⟩ declared distinct
  rw [moved]
  exact Catalog.alike_of_perm _ declared distinct

-- Schemas that differ in nothing but the order of the types.
structure Schema.Alike (s s' : Schema) : Prop where
  document : s.document.Reordered s'.document
  resolvers : s'.resolvers = s.resolvers
  hooks : s'.hooks = s.hooks
  catalog : s.catalog.Alike s'.catalog
  settings : s'.settings = s.settings

theorem Blueprint.finish_reordered {b b' : Blueprint} (same : b.Alike b') {settings : Settings}
    {s : Schema} (finished : b.finish settings = .ok s) :
    ∃ s', b'.finish settings = .ok s' ∧ s.Alike s' := by
  have problems := same.problems
  unfold finish at finished ⊢
  split at finished
  · cases finished
  · rename_i none
    obtain rfl := Except.ok.inj finished
    rw [none] at problems
    rw [List.nil_perm.mp problems]
    exact ⟨_, rfl, same.document, same.resolvers, same.hooks, same.document.catalog _, rfl⟩

theorem Session.build_reordered {source source' : String} {defs defs' : List Definition}
    (parsed : Definition.readAll? source = some defs)
    (parsed' : Definition.readAll? source' = some defs')
    (same : Definition.Reordered defs defs') {settings : Settings} {hooks : List Attachment}
    {s : Schema} (built : build settings source hooks = .ok s) :
    ∃ s', build settings source' hooks = .ok s' ∧ s.Alike s' := by
  obtain ⟨b, c, read, attached, finished⟩ := build_ok built
  obtain ⟨b', read', alike⟩ := Blueprint.read_reordered parsed parsed' same read
  obtain ⟨c', attached', alike⟩ := Blueprint.attachAll_reordered alike attached
  obtain ⟨s', finished', alike⟩ := Blueprint.finish_reordered alike finished
  refine ⟨s', ?_, alike⟩
  unfold build
  rw [read']
  change (attachAll b' hooks >>= fun b => b.finish settings) = _
  rw [attached']
  exact finished'

end RowGraph
