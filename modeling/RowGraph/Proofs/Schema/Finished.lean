import RowGraph.Proofs.Schema.Built
/-!
Blueprints that are turned down. Every field of a declared object type has a resolver, because such a
type is a root, an entry type or a table. Main statement: finishing a blueprint fails only with a
problem of its document.
-/

namespace RowGraph

-- A fault of the program itself, which no document and no request should bring about.
def GraphError.Internal (e : GraphError) : Prop := e.code = "InternalError"

instance (e : GraphError) : Decidable e.Internal := inferInstanceAs (Decidable (_ = _))

theorem GraphError.internal_iff {e : GraphError} : e.Internal ↔ ∃ message, e = .internal message := by
  cases e <;> simp [Internal, code]

theorem SchemaProblem.error_external (p : SchemaProblem) : ¬ p.error.Internal := by
  simp [SchemaProblem.error, GraphError.internal_iff]

theorem FieldMap.contains_ofList {entries : List (String × String × α)}
    {e : String × String × α} (member : e ∈ entries) :
    FieldMap.contains (ofList entries) e.1 e.2.1 = true := by
  unfold contains
  rw [get?_ofList, Option.isSome_map]
  unfold last?
  simp only [List.find?_isSome, List.mem_reverse]
  exact ⟨e, member, by simp⟩

namespace Document

variable {d : Document}

-- A declared object type is served, in one way or another.
theorem mem_served (nodup : (d.types.map TypeDef.name).Nodup) {t : TypeDef} (declared : t ∈ d.types)
    {fields : List FieldDef} (object : t.body = .object fields) : (t.name, fields) ∈ d.served := by
  have known : (t.name, fields) ∈ d.objects := by
    refine List.mem_filterMap.mpr ⟨t, declared, ?_⟩
    simp [TypeDef.objectFields?, object]
  have root : d.rootObject t.name = (t.name, fields) := by
    rw [rootObject, objectFields?_of_mem nodup known]
    rfl
  unfold served
  simp only [List.mem_append, List.mem_singleton, List.mem_map, Option.mem_toList, tables,
    entryObjects, List.mem_filter, known, true_and]
  by_cases query : d.query = t.name
  · exact .inl (.inl (.inl (query ▸ root.symm)))
  · by_cases mutation : d.mutation = some t.name
    · exact .inr ⟨t.name, mutation, root⟩
    · cases entry : d.isEntry t.name with
      | true => exact .inl (.inr rfl)
      | false => exact .inl (.inl (.inr (by simp [isRoot, query, mutation])))

theorem derive_contains {derived : List Derived} (accepted : d.derive = .ok derived)
    (nodup : (d.types.map TypeDef.name).Nodup) {t : TypeDef} (declared : t ∈ d.types)
    {fields : List FieldDef} (object : t.body = .object fields) {f : FieldDef} (inside : f ∈ fields) :
    FieldMap.contains (FieldMap.ofList derived) t.name f.name = true := by
  have owned : (t.name, f) ∈ owned d.served :=
    mem_owned.mpr ⟨fields, mem_served nodup declared object, inside⟩
  obtain ⟨e, member, type, field, _⟩ := mem_of_forall₂ (derive_served accepted) owned
  have contained := FieldMap.contains_ofList member
  rwa [type, field] at contained

end Document

-- A type by itself is turned down only for what it is.
theorem Blueprint.typeProblems_external {b : Blueprint} {t : TypeDef}
    (served : ∀ fields, t.body = .object fields → ∀ f ∈ fields,
      FieldMap.contains b.resolvers t.name f.name = true) :
    ∀ e ∈ b.typeProblems t, ∃ p : SchemaProblem, e = p.error := by
  unfold typeProblems
  split
  · rename_i fields object
    intro e found
    obtain ⟨f, member, rfl⟩ := List.mem_map.mp found
    obtain ⟨inside, unserved⟩ := List.mem_filter.mp member
    simp [served fields object f inside] at unserved
  · intro e found
    exact ⟨_, List.mem_singleton.mp found⟩
  · intro e found
    exact ⟨_, List.mem_singleton.mp found⟩
  · exact fun _ absurd => nomatch absurd

-- Whatever hooks were attached.
theorem Blueprint.finish_problem {source : String} {b b' : Blueprint} {hooks : List Attachment}
    (accepted : Blueprint.read source = .ok b) (attached : Session.attachAll b hooks = .ok b')
    {settings : Settings} {e : GraphError} (failed : b'.finish settings = .error e) :
    ∃ p : SchemaProblem, e = p.error := by
  obtain ⟨d, parsed, made⟩ := Document.bind_ok accepted
  obtain ⟨derived, derives, made⟩ := Document.bind_ok made
  obtain rfl := Except.ok.inj made
  obtain ⟨document, resolvers, _⟩ := Session.attachAll_ok attached
  have nodup := (Document.read_ok parsed).1.nodup
  unfold finish at failed
  split at failed
  · rename_i first rest found
    obtain rfl := Except.error.inj failed
    have member : first ∈ b'.problems := found ▸ List.mem_cons_self
    rcases List.mem_append.mp member with own | check
    · obtain ⟨t, declared, own⟩ := List.mem_flatMap.mp own
      rw [document] at declared
      refine typeProblems_external (fun fields object f inside => ?_) first own
      rw [resolvers]
      exact Document.derive_contains derives nodup declared object inside
    · obtain ⟨p, _, rfl⟩ := List.mem_map.mp check
      exact ⟨p, rfl⟩
  · cases failed

end RowGraph
