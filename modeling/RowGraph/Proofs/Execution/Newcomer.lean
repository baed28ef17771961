import RowGraph.Proofs.Execution.Alike
import RowGraph.Proofs.Schema.Analysis
import RowGraph.Proofs.Schema.Pieces
import RowGraph.Proofs.Schema.Widened
import RowGraph.Proofs.Validation.Met
/-!
A type that a document gets besides. Main statement: whatever the new type is, the old types keep
their kinds, what they wrap and the resolvers of their fields, and a request that was valid without
it and asks nothing about the schema has the same answer with it.
-/

namespace RowGraph

-- What a catalog has besides the types that its document knows describes the schema.
theorem Document.knows_or_describes {d : Document} {introspection : Bool} {name : String}
    {t : TypeDef} (found : (Catalog.ofDocument d introspection).type? name = some t) :
    d.Knows name ∨ (Description.type? name).isSome = true ∧ d.type? name = none := by
  cases declared : d.type? name with
  | some u => exact .inl (.inl (Option.isSome_of_eq_some declared))
  | none =>
    have named : t.name = name := Catalog.name_of_type? found
    have member : t ∈ d.types.map TypeDef.distinct ++ (Catalog.scalars ++
        if introspection then
          Description.typesBeside ((d.types.map TypeDef.distinct).map fun t => t.name)
        else []) := List.mem_of_find?_eq_some found
    rcases List.mem_append.mp member with own | builtin
    · obtain ⟨u, inside, rfl⟩ := List.mem_map.mp own
      have other := List.find?_eq_none.mp declared u inside
      exact absurd (show u.name = name from named) (by simpa using other)
    · rcases List.mem_append.mp builtin with scalar | describes
      · refine .inl (.inr (List.contains_iff_mem.mpr (named ▸ ?_)))
        exact Catalog.scalars_name t scalar
      · split at describes
        · have inside := (List.mem_filter.mp describes).1
          exact .inr ⟨List.find?_isSome.mpr ⟨t, inside, by simp [named]⟩, rfl⟩
        · cases describes

-- No blueprint with an interface or a union is finished.
theorem Blueprint.abstract_unfinished {b : Blueprint} {t : TypeDef} (member : t ∈ b.document.types)
    (abstract : (∃ fields, t.body = .interface fields) ∨ ∃ members, t.body = .union members)
    (settings : Settings) : ∃ e, b.finish settings = .error e := by
  have problem : SchemaProblem.error (.abstractType t.name) ∈ b.problems := by
    refine List.mem_append_left _ (List.mem_flatMap.mpr ⟨t, member, ?_⟩)
    unfold typeProblems
    rcases abstract with ⟨_, body⟩ | ⟨_, body⟩
    · rw [body]
      exact List.mem_singleton_self _
    · rw [body]
      exact List.mem_singleton_self _
  unfold finish
  cases problems : b.problems with
  | nil => rw [problems] at problem; cases problem
  | cons e rest => exact ⟨e, rfl⟩

-- A request that meets only what two schemas agree on has the same answer from both.
theorem Catalog.Agrees.execute {known : String → Prop} {s s' : Schema}
    (catalog : s.catalog.Agrees known s'.catalog) (settings : s'.settings = s.settings)
    (resolvers : ∀ type field, known type →
      FieldMap.get? s'.resolvers type field = FieldMap.get? s.resolvers type field)
    (hooks : ∀ type field, known type →
      FieldMap.get? s'.hooks type field = FieldMap.get? s.hooks type field)
    {r : Request} {q : Query} (read : Query.read? r.source = some q) (within : q.Within known)
    (plain : ∀ head ∈ q.heads, head.Plain) {σ : Type} (b : Backend σ) (store : σ) :
    s'.execute b r store = s.execute b r store := by
  have prepared : r.prepare s' = r.prepare s :=
    catalog.prepare settings r fun q' read' => Option.some.inj (read.symm.trans read') ▸ within
  unfold Schema.execute
  rw [prepared]
  cases ready : r.prepare s with
  | error refusal => cases refusal <;> rfl
  | ok m =>
    have left : ∀ head ∈ Node.headsAll m.nodes, head.Plain := by
      refine Request.prepare_heads ready fun q' read' => ?_
      obtain rfl := Option.some.inj (read.symm.trans read')
      exact ⟨fun o member head inside =>
          plain head (List.mem_append_left _ (List.mem_flatMap.mpr ⟨o, member, inside⟩)),
        fun f member head inside =>
          plain head (List.mem_append_right _ (List.mem_flatMap.mpr ⟨f, member, inside⟩))⟩
    simp only [catalog.root?]
    cases rooted : s.catalog.root? m.operation.kind with
    | none => rfl
    | some name =>
      have named := catalog.roots _ name rooted
      simp only [Option.bind_some, catalog.type? name named]
      cases found : s.catalog.type? name with
      | none => rfl
      | some root =>
        have agrees : Execution.Agrees known ⟨s, b, m.operation.variableDefs, r.values⟩
            ⟨s', b, m.operation.variableDefs, r.values⟩ :=
          ⟨⟨rfl, rfl⟩, catalog, resolvers, hooks, rfl⟩
        have ran := agrees.run (Catalog.name_of_type? found ▸ named)
          (catalog.within name root named found) (.inr left) store
        simp only [ran]

-- The second blueprint has all that the first has.
structure Blueprint.Retained (b b' : Blueprint) : Prop where
  query : b'.document.query = b.document.query
  mutation : b'.document.mutation = b.document.mutation
  kindOf : ∀ u ∈ b.document.types, b'.document.kindOf u.name = b.document.kindOf u.name
  entryTable? : ∀ u ∈ b.document.types,
    b'.document.entryTable? u.name = b.document.entryTable? u.name
  resolvers : ∀ u ∈ b.document.types, ∀ field,
    FieldMap.get? b'.resolvers u.name field = FieldMap.get? b.resolvers u.name field

theorem Document.Extends.retained {d d' : Document} {t : TypeDef} (more : d.Extends t d')
    {b b' : Blueprint} (made : Blueprint.ofDocument d = .ok b)
    (made' : Blueprint.ofDocument d' = .ok b') : b.Retained b' := by
  obtain ⟨es, derives, made⟩ := Document.bind_ok made
  obtain ⟨es', derives', made'⟩ := Document.bind_ok made'
  obtain rfl := Except.ok.inj made
  obtain rfl := Except.ok.inj made'
  have known {u : TypeDef} (member : u ∈ d.types) : d.Knows u.name :=
    .inl (List.find?_isSome.mpr ⟨u, member, by simp⟩)
  exact ⟨more.roots.1, more.roots.2, fun u member => more.kindOf derives (known member),
    fun u member => more.entryTable? derives (known member),
    fun u member => more.resolvers derives derives' (known member)⟩

section

variable {source source' : String} {defs defs' : List Definition} {t : TypeDef}

theorem Document.read_extends (parsed : Definition.readAll? source = some defs)
    (parsed' : Definition.readAll? source' = some defs')
    (added : Definition.Reordered (.type t :: defs) defs')
    (usual : defs.flatMap Definition.schema = [] → t.name ≠ "Mutation") {d d' : Document}
    (accepted : read source = .ok d) (accepted' : read source' = .ok d') : d.Extends t d' := by
  unfold read at accepted accepted'
  rw [parsed] at accepted
  rw [parsed'] at accepted'
  obtain ⟨admits, _⟩ := ofDefinitions_admits accepted
  refine ofDefinitions_extends accepted accepted' added fun unnamed => usual ?_
  have absent : Option.toList none = defs.flatMap Definition.named := unnamed.symm
  rcases (Definition.named_iff admits.sound).mp absent with ⟨undefined, _⟩ | ⟨_, _, _, _, given⟩
  · exact undefined
  · cases given

theorem newcomer_immaterial (parsed : Definition.readAll? source = some defs)
    (parsed' : Definition.readAll? source' = some defs')
    (added : Definition.Reordered (.type t :: defs) defs')
    (usual : defs.flatMap Definition.schema = [] → t.name ≠ "Mutation")
    {b b' : Blueprint} (accepted : Blueprint.read source = .ok b)
    (accepted' : Blueprint.read source' = .ok b') :
    b.Retained b' ∧
    ((∃ fields, t.body = .interface fields) ∨ (∃ members, t.body = .union members) →
      ∀ hooks hooked, Session.attachAll b' hooks = .ok hooked →
        ∀ settings, ∃ e, hooked.finish settings = .error e) ∧
    ∀ settings hooks s s', Session.build settings source hooks = .ok s →
      Session.build settings source' hooks = .ok s' →
      ∀ (r : Request) q, Query.read? r.source = some q →
        Validation.errors ⟨s.catalog, q, r.values⟩ = [] → ¬ q.Inquires s.document →
        ∀ (σ : Type) (backend : Backend σ) (store : σ),
          s'.execute backend r store = s.execute backend r store := by
  obtain ⟨d, read, made⟩ := Document.bind_ok accepted
  obtain ⟨d', read', made'⟩ := Document.bind_ok accepted'
  have more := Document.read_extends parsed parsed' added usual read read'
  refine ⟨more.retained made made', fun abstract hooks hooked attached settings => ?_, ?_⟩
  · obtain ⟨_, _, same⟩ := Document.bind_ok made'
    obtain rfl := Except.ok.inj same
    have member : t ∈ hooked.document.types := by
      rw [(Session.attachAll_ok attached).1]
      exact more.newcomer
    exact Blueprint.abstract_unfinished member abstract settings
  · intro settings hooks s s' built built' r q asked valid silent σ backend store
    have document : Document.read source = .ok s.document := Session.build_document built
    have document' : Document.read source' = .ok s'.document := Session.build_document built'
    have more := Document.read_extends parsed parsed' added usual document document'
    obtain ⟨catalog, settings', resolvers, hooks'⟩ := Session.build_extends built built' more
    have plain : ∀ head ∈ q.heads, head.Plain := fun head member =>
      FieldHead.plain_iff.mpr fun enters => silent (.inl ⟨head, member, enters⟩)
    have within : q.Within s.document.Knows := by
      refine Validation.errors_within valid plain fun name member t found => ?_
      rw [(Schema.Built.grounded ⟨settings, source, hooks, built⟩).catalog] at found
      rcases Document.knows_or_describes found with known | describes
      · exact known
      · exact absurd (.inr ⟨name, member, describes⟩) silent
    exact catalog.execute settings' resolvers hooks' asked within plain backend store

end

instance (q : Query) (d : Document) : Decidable (q.Inquires d) :=
  inferInstanceAs (Decidable ((∃ head ∈ q.heads, _) ∨ ∃ name ∈ q.typeNames, _))

-- Books, and what wraps them in a type of its own between those that were there.
def barelyShown : String :=
  Overview.ask "type Query" ["book(id: ID): Book"] ++
  Overview.ask "type Book" ["title: String"]

def alsoWrapped : String :=
  Overview.ask "type Query" ["book(id: ID): Book"] ++
  Overview.ask "type Shown" ["value: Book", "versionstamp: ID"] ++
  Overview.ask "type Book" ["title: String"]

def titleAsked : Request :=
  { source := Overview.ask "query" [Overview.ask "book(id: 1)" ["title"]] }

theorem wrapper_immaterial : ∃ defs defs' t b b' s s' q,
    Definition.readAll? barelyShown = some defs ∧ Definition.readAll? alsoWrapped = some defs' ∧
    Definition.Reordered (.type t :: defs) defs' ∧ t.name ≠ "Mutation" ∧
    Blueprint.read barelyShown = .ok b ∧ Blueprint.read alsoWrapped = .ok b' ∧
    b'.document.entryTable? t.name = some "Book" ∧
    Session.build {} barelyShown [] = .ok s ∧ Session.build {} alsoWrapped [] = .ok s' ∧
    Query.read? titleAsked.source = some q ∧
    Validation.errors ⟨s.catalog, q, titleAsked.values⟩ = [] ∧ ¬ q.Inquires s.document ∧
    b.Retained b' ∧ ∀ store, s'.execute Memory.backend titleAsked store =
      s.execute Memory.backend titleAsked store := by
  have shown : ((Definition.readAll? barelyShown).bind fun defs =>
      (Definition.readAll? alsoWrapped).bind fun defs' =>
      ((defs'.flatMap Definition.types).find? fun t => t.name = "Shown").bind fun t =>
      (Blueprint.read barelyShown).toOption.bind fun _ =>
      (Blueprint.read alsoWrapped).toOption.bind fun b' =>
      (Session.build {} barelyShown []).toOption.bind fun s =>
      (Session.build {} alsoWrapped []).toOption.bind fun _ =>
      (Query.read? titleAsked.source).map fun q => decide (
        Definition.Reordered (.type t :: defs) defs' ∧ t.name ≠ "Mutation" ∧
        b'.document.entryTable? t.name = some "Book" ∧
        Validation.errors ⟨s.catalog, q, titleAsked.values⟩ = [] ∧
        ¬ q.Inquires s.document)) = some true := by
    simp only [Definition.readAll?_toList, Session.build_toList, Blueprint.read_toList, barelyShown,
      alsoWrapped, String.toList_append, Overview.toList_ask]
    decide +kernel
  simp only [Option.bind_eq_some_iff, Option.map_eq_some_iff, decide_eq_true_eq] at shown
  obtain ⟨defs, parsed, defs', parsed', t, _, b, read, b', read', s, built, s', built', q, asked,
    added, other, wraps, valid, silent⟩ := shown
  have accepted := ok_of_toOption read
  have accepted' := ok_of_toOption read'
  have built := ok_of_toOption built
  have built' := ok_of_toOption built'
  obtain ⟨retained, _, answers⟩ :=
    newcomer_immaterial parsed parsed' added (fun _ => other) accepted accepted'
  exact ⟨defs, defs', t, b, b', s, s', q, parsed, parsed', added, other, accepted, accepted', wraps,
    built, built', asked, valid, silent, retained, fun store =>
      answers {} [] s s' built built' titleAsked q asked valid silent Memory Memory.backend store⟩

end RowGraph
