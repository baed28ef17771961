import Mathlib.Data.List.Nodup
import RowGraph.Proofs.Mutation.Queries
import RowGraph.Proofs.Schema.Maps
import RowGraph.Proofs.Schema.Reading
/-!
Documents with the same roots and the same types in some order. Every question about a name has the
same answer in both, so they give rise to the same resolvers. Main statement: a text with its
definitions in another order is made into a blueprint with the same resolvers and the same places
for hooks, and it can be finished just as well.
-/

namespace RowGraph

variable {α β : Type}

theorem find?_perm {key : α → String} {as as' : List α} (same : as.Perm as')
    (nodup : (as.map key).Nodup) (name : String) :
    as'.find? (fun a => key a = name) = as.find? fun a => key a = name := by
  apply Option.ext
  intro a
  rw [find?_iff_mem nodup, find?_iff_mem ((same.map key).nodup_iff.mp nodup), same.mem_iff]

theorem filter_keyed {key : α → String} {as : List α} (nodup : (as.map key).Nodup) (name : String) :
    (as.filter fun a => key a = name) = (as.find? fun a => key a = name).toList := by
  induction as with
  | nil => rfl
  | cons a rest ih =>
    obtain ⟨fresh, nodup⟩ := List.nodup_cons.mp nodup
    by_cases named : key a = name
    · have none : (rest.filter fun b => key b = name) = [] := by
        refine List.filter_eq_nil_iff.mpr fun b member same => fresh ?_
        exact List.mem_map.mpr ⟨b, member, (of_decide_eq_true same).trans named.symm⟩
      simp [named, none]
    · simpa [named] using ih nodup

theorem any_perm {p : α → Bool} {as as' : List α} (same : as.Perm as') : as'.any p = as.any p := by
  rw [Bool.eq_iff_iff, List.any_eq_true, List.any_eq_true]
  exact exists_congr fun a => and_congr_left' same.mem_iff.symm

namespace Document

theorem owned_named (objects : List (String × List FieldDef)) (type : String) :
    (owned objects).filter (fun s => s.1 = type) = owned (objects.filter fun o => o.1 = type) := by
  induction objects with
  | nil => rfl
  | cons o rest ih =>
    rw [show owned (o :: rest) = o.2.map (fun f => (o.1, f)) ++ owned rest from rfl,
      List.filter_append, ih, List.filter_map]
    by_cases named : o.1 = type
    · rw [List.filter_cons_of_pos (by simpa using named)]
      simp [named, Function.comp_def, owned]
    · rw [List.filter_cons_of_neg (by simpa using named)]
      simp [named, Function.comp_def]

-- The fields of one type come in their own order.
theorem owned_filter {objects objects' : List (String × List FieldDef)}
    (same : objects.Perm objects') (nodup : (objects.map Prod.fst).Nodup) (type : String) :
    (owned objects').filter (fun s => s.1 = type) = (owned objects).filter fun s => s.1 = type := by
  rw [owned_named, owned_named, filter_keyed nodup, filter_keyed ((same.map _).nodup_iff.mp nodup),
    find?_perm same nodup]

theorem mapM_ok_iff {ε : Type} {f : α → Except ε β} {as : List α} :
    (∃ bs, as.mapM f = .ok bs) ↔ ∀ a ∈ as, ∃ b, f a = .ok b := by
  refine ⟨fun ⟨bs, accepted⟩ a member => mapM_ok accepted member, fun each => ?_⟩
  induction as with
  | nil => exact ⟨[], rfl⟩
  | cons a rest ih =>
    obtain ⟨b, first⟩ := each a List.mem_cons_self
    obtain ⟨bs, later⟩ := ih fun a member => each a (List.mem_cons_of_mem _ member)
    exact ⟨b :: bs, by rw [List.mapM_cons, first, later]; rfl⟩

theorem mapM_filter {ε : Type} {f : α → Except ε β} {as : List α} {bs : List β} {p : α → Bool}
    {q : β → Bool} (agree : ∀ a b, f a = .ok b → p a = q b) (accepted : as.mapM f = .ok bs) :
    (as.filter p).mapM f = .ok (bs.filter q) := by
  have each := mapM_forall₂ accepted
  clear accepted
  induction each with
  | nil => rfl
  | @cons a b as bs first _ ih =>
    rw [List.filter_cons, List.filter_cons, agree a b first]
    split
    · rw [List.mapM_cons, first, ih]
      rfl
    · exact ih

theorem tableField_type {d : Document} {table : String} {f : FieldDef} {e : Derived}
    (accepted : d.tableField table f = .ok e) : e.1 = table := by
  obtain ⟨shape, _, accepted⟩ := bind_ok accepted
  split at accepted
  all_goals
    obtain rfl := Except.ok.inj accepted
    rfl

theorem entryFields_owned (d : Document) :
    d.entryFields = (owned d.entryObjects).map fun s => entryField s.1 s.2 := by
  simp [Document.entryFields, owned, List.map_flatMap, Function.comp_def]

structure Reordered (d d' : Document) : Prop where
  query : d'.query = d.query
  mutation : d'.mutation = d.mutation
  types : d.types.Perm d'.types
  named : Named d.types
  entries : d.entries = d.entryTypes
  entries' : d'.entries = d'.entryTypes

namespace Reordered

variable {d d' : Document} (same : d.Reordered d')

include same

theorem type? : d'.type? = d.type? := funext fun _ => find?_perm same.types same.named.nodup _

theorem objectFields? : d'.objectFields? = d.objectFields? := by
  funext name
  rw [Document.objectFields?, Document.objectFields?, same.type?]

theorem inputFields? : d'.inputFields? = d.inputFields? := by
  funext name
  rw [Document.inputFields?, Document.inputFields?, same.type?]

theorem isRoot : d'.isRoot = d.isRoot := by
  funext name
  rw [Document.isRoot, Document.isRoot, same.query, same.mutation]

theorem wrapped? : d'.wrapped? = d.wrapped? := by
  have holds : d'.holdsRow = d.holdsRow := by
    funext f
    rw [holdsRow, holdsRow, same.objectFields?, same.isRoot]
  funext fields
  rw [Document.wrapped?, Document.wrapped?, holds]

theorem wrappers : d.wrappers.Perm d'.wrappers := by
  unfold Document.wrappers
  rw [same.wrapped?, same.isRoot]
  exact same.types.filterMap _

theorem entryTypes : d.entryTypes.Perm d'.entryTypes := by
  unfold Document.entryTypes
  have held : (fun e : String × String => !d'.wrappers.any fun w => w.1 = e.2) =
      fun e => !d.wrappers.any fun w => w.1 = e.2 := by
    funext e
    rw [any_perm same.wrappers]
  rw [held]
  exact same.wrappers.filter _

theorem entryTable? : d'.entryTable? = d.entryTable? := by
  funext name
  have nodup : (d.entryTypes.map Prod.fst).Nodup :=
    (wrappers_nodup same.named.nodup).sublist (List.filter_sublist.map _)
  unfold Document.entryTable? Members.get?
  rw [same.entries, same.entries', find?_perm same.entryTypes nodup]

theorem isEntry : d'.isEntry = d.isEntry := by
  funext name
  rw [Document.isEntry, Document.isEntry, same.entryTable?]

theorem kindOf : d'.kindOf = d.kindOf := by
  funext name
  unfold Document.kindOf
  rw [same.type?, same.isRoot, same.isEntry]

theorem lookup : d'.lookup = d.lookup := by
  rw [Document.lookup, Document.lookup, same.kindOf, same.entryTable?]

theorem isTable : d'.isTable = d.isTable := by
  funext name
  rw [Document.isTable, Document.isTable, same.kindOf]

theorem objects : d.objects.Perm d'.objects := same.types.filterMap _

theorem tables : d.tables.Perm d'.tables := by
  unfold Document.tables
  rw [same.isRoot, same.isEntry]
  exact same.objects.filter _

theorem entryObjects : d.entryObjects.Perm d'.entryObjects := by
  unfold Document.entryObjects
  rw [same.isEntry]
  exact same.objects.filter _

theorem rootField : d'.rootField = d.rootField := by
  funext f
  unfold Document.rootField
  rw [same.lookup, same.query]

theorem tableField : d'.tableField = d.tableField := by
  funext table f
  unfold Document.tableField
  rw [same.lookup]

theorem mutationField : d'.mutationField = d.mutationField := by
  have binding : d'.binding = d.binding := by
    funext input f
    unfold Document.binding
    rw [same.isTable, same.inputFields?]
  have resultOf : d'.resultOf = d.resultOf := by
    funext f
    unfold Document.resultOf
    rw [same.lookup, same.objectFields?]
  funext root f
  unfold Document.mutationField
  rw [same.inputFields?, binding, resultOf]

theorem rootFields : d'.rootFields = d.rootFields := by
  unfold Document.rootFields
  rw [same.objectFields?, same.query, same.rootField]

theorem mutationFields : d'.mutationFields = d.mutationFields := by
  unfold Document.mutationFields
  rw [same.mutation, same.objectFields?, same.mutationField]

theorem tableFields {es : List Derived} (accepted : d.tableFields = .ok es) :
    ∃ es', d'.tableFields = .ok es' ∧
      ∀ type, es'.filter (fun e => e.1 = type) = es.filter fun e => e.1 = type := by
  unfold Document.tableFields at accepted ⊢
  rw [same.tableField]
  change (owned d.tables).mapM (fun s => d.tableField s.1 s.2) = .ok es at accepted
  change ∃ es', (owned d'.tables).mapM (fun s => d.tableField s.1 s.2) = .ok es' ∧ _
  have named : (d.tables.map Prod.fst).Nodup :=
    (objects_nodup same.named.nodup).sublist (List.filter_sublist.map _)
  obtain ⟨es', accepted'⟩ :
      ∃ es', (owned d'.tables).mapM (fun s => d.tableField s.1 s.2) = .ok es' := by
    refine mapM_ok_iff.mpr fun s member => mapM_ok accepted ?_
    obtain ⟨fields, known, inside⟩ := mem_owned.mp member
    exact mem_owned.mpr ⟨fields, same.tables.mem_iff.mpr known, inside⟩
  refine ⟨es', accepted', fun type => ?_⟩
  have agree : ∀ (s : String × FieldDef) e, d.tableField s.1 s.2 = .ok e →
      decide (s.1 = type) = decide (e.1 = type) := by
    intro s e made
    rw [tableField_type made]
  have kept := mapM_filter agree accepted'
  rw [owned_filter same.tables named] at kept
  exact Except.ok.inj (kept.symm.trans (mapM_filter agree accepted))

theorem entryFields (type : String) :
    d'.entryFields.filter (fun e => e.1 = type) = d.entryFields.filter fun e => e.1 = type := by
  have named : (d.entryObjects.map Prod.fst).Nodup :=
    (objects_nodup same.named.nodup).sublist (List.filter_sublist.map _)
  rw [entryFields_owned, entryFields_owned, List.filter_map, List.filter_map]
  exact congrArg _ (owned_filter same.entryObjects named type)

-- The same fields are resolved, and those of one type in the same order.
theorem derive {es : List Derived} (accepted : d.derive = .ok es) :
    ∃ es', d'.derive = .ok es' ∧
      ∀ type, es'.filter (fun e => e.1 = type) = es.filter fun e => e.1 = type := by
  obtain ⟨roots, rooted, accepted⟩ := bind_ok accepted
  obtain ⟨tables, tabled, accepted⟩ := bind_ok accepted
  obtain ⟨mutations, mutated, accepted⟩ := bind_ok accepted
  obtain rfl := Except.ok.inj accepted
  obtain ⟨tables', tabled', kept⟩ := same.tableFields tabled
  refine ⟨roots ++ tables' ++ d'.entryFields ++ mutations, ?_, fun type => ?_⟩
  · unfold Document.derive
    rw [same.rootFields, rooted, tabled', same.mutationFields, mutated]
    rfl
  · simp only [List.filter_append, kept, same.entryFields]

end Reordered

-- The document of what has been accepted, unless a root is missing.
def Accepted.document (a : Accepted) : Document :=
  let d : Document :=
    { query := a.rootNames.1, mutation := a.rootNames.2, types := a.types, entries := [] }
  { d with entries := d.entryTypes }

theorem ofDefinitions_iff {defs : List Definition} {d : Document} :
    ofDefinitions defs = .ok d ↔ ∃ a : Accepted, ({} : Accepted).addAll defs = .ok a ∧
      d = a.document ∧ (d.objectFields? d.query).isSome = true ∧
      ∀ m, d.mutation = some m → (d.objectFields? m).isSome = true := by
  constructor
  · intro accepted
    obtain ⟨a, added, accepted⟩ := bind_ok accepted
    refine ⟨a, added, ?_⟩
    simp only at accepted
    split at accepted
    · cases accepted
    · rename_i query
      have query := Option.isSome_iff_ne_none.mpr (mt Option.isNone_iff_eq_none.mpr query)
      split at accepted
      · rename_i m named
        split at accepted
        · cases accepted
        · rename_i mutation
          have mutation := Option.isSome_iff_ne_none.mpr (mt Option.isNone_iff_eq_none.mpr mutation)
          obtain rfl := Except.ok.inj accepted
          refine ⟨rfl, query, fun m' named' => ?_⟩
          obtain rfl : m = m' := Option.some.inj (named.symm.trans named')
          exact mutation
      · rename_i none
        obtain rfl := Except.ok.inj accepted
        exact ⟨rfl, query, fun m named => absurd (none.symm.trans named) (by simp)⟩
  · rintro ⟨a, added, rfl, query, mutation⟩
    have some {α : Type} {o : Option α} (present : o.isSome = true) : ¬ o.isNone = true := by
      simpa [Option.isSome_iff_ne_none] using present
    unfold ofDefinitions
    rw [added]
    refine (if_neg (some query)).trans ?_
    dsimp only
    split
    · rename_i m named
      exact if_neg (some (mutation m named))
    · rfl

-- The roots that are taken from definitions in any order.
theorem Accepted.rootNames_perm {a a' : Accepted} (roots : a'.roots = a.roots)
    (types : a.types.Perm a'.types) : a'.rootNames = a.rootNames := by
  unfold rootNames
  rw [roots, any_perm types]

-- Documents of the same definitions.
theorem ofDefinitions_reordered {defs defs' : List Definition} {d : Document}
    (same : Definition.Reordered defs defs') (accepted : ofDefinitions defs = .ok d) :
    ∃ d', ofDefinitions defs' = .ok d' ∧ d.Reordered d' := by
  obtain ⟨a, added, rfl, query, mutation⟩ := ofDefinitions_iff.mp accepted
  have named := Accepted.addAll_named added ⟨List.nodup_nil, fun _ absurd => nomatch absurd⟩
  have takes := (Accepted.addAll_takes (a := {}) List.nodup_nil).mp added
  obtain ⟨a', takes', roots, types⟩ := takes.reordered same
  have added' := (Accepted.addAll_takes (a := {}) List.nodup_nil).mpr takes'
  have names := Accepted.rootNames_perm roots types
  have alike : a.document.Reordered a'.document :=
    ⟨congrArg Prod.fst names, congrArg Prod.snd names, types, named, rfl, rfl⟩
  refine ⟨a'.document, ofDefinitions_iff.mpr ⟨a', added', rfl, ?_, ?_⟩, alike⟩
  · rw [alike.objectFields?, alike.query]
    exact query
  · rw [alike.objectFields?, alike.mutation]
    exact mutation

end Document

theorem closure_perm {step : String → List String} {known known' : List String}
    (same : known.Perm known') (start : List String) :
    closure step known' start = closure step known start := by
  unfold closure
  rw [(same.flatMap_right step).length_eq]

-- Blueprints that differ in nothing but the order of the types.
structure Blueprint.Alike (b b' : Blueprint) : Prop where
  document : b.document.Reordered b'.document
  declared : b.declared.Perm b'.declared
  distinct : (b.declared.map TypeDef.name).Nodup
  resolvers : b'.resolvers = b.resolvers
  hooks : b'.hooks = b.hooks

namespace Blueprint.Alike

variable {b b' : Blueprint} (same : b.Alike b')

include same

theorem type? : b'.type? = b.type? := by
  funext name
  unfold Blueprint.type?
  rw [find?_perm same.declared same.distinct]

theorem missing : b'.missing = b.missing := by
  funext names
  unfold Blueprint.missing
  rw [same.type?]

theorem missingTypes : b.missingTypes.Perm b'.missingTypes := by
  unfold Blueprint.missingTypes
  rw [same.missing, same.document.query, same.document.mutation]
  exact (same.declared.flatMap_right _).append_left _

theorem objectProblems : b.objectProblems.Perm b'.objectProblems := by
  have arguments : b'.argumentProblems = b.argumentProblems := by
    funext type field a
    unfold Blueprint.argumentProblems
    rw [same.type?]
  have fields : b'.fieldProblems = b.fieldProblems := by
    funext type f
    unfold Blueprint.fieldProblems
    rw [same.type?, arguments]
  unfold Blueprint.objectProblems
  rw [fields]
  exact same.declared.flatMap_right _

theorem inputProblems : b.inputProblems.Perm b'.inputProblems := by
  have fields : b'.inputFieldProblems = b.inputFieldProblems := by
    funext type f
    unfold Blueprint.inputFieldProblems
    rw [same.type?]
  have required : b'.required = b.required := by
    funext type
    unfold Blueprint.required
    rw [same.type?]
  have contains : b'.containsItself = b.containsItself := by
    funext type
    unfold Blueprint.containsItself
    rw [required, closure_perm (same.declared.map _)]
  unfold Blueprint.inputProblems
  rw [fields, contains]
  exact same.declared.flatMap_right _

-- The same problems are found, in some order.
theorem problems : b.problems.Perm b'.problems := by
  have types : b'.typeProblems = b.typeProblems := by
    funext t
    unfold Blueprint.typeProblems
    rw [same.resolvers]
  unfold Blueprint.problems Blueprint.checkProblems
  rw [types]
  exact (same.document.types.flatMap_right _).append
    (((same.missingTypes.append same.objectProblems).append same.inputProblems).map _)

end Blueprint.Alike

namespace Blueprint

theorem ofDocument_reordered {d d' : Document} (same : d.Reordered d') {b : Blueprint}
    (accepted : ofDocument d = .ok b) : ∃ b', ofDocument d' = .ok b' ∧ b.Alike b' := by
  obtain ⟨es, derives, accepted⟩ := Document.bind_ok accepted
  obtain rfl := Except.ok.inj accepted
  obtain ⟨es', derives', kept⟩ := same.derive derives
  have resolvers : FieldMap.ofList es' = FieldMap.ofList es := FieldMap.ofList_ext kept
  have names : d.types.map (TypeDef.name ∘ TypeDef.distinct) = d.types.map TypeDef.name := rfl
  refine ⟨_, by unfold ofDocument; rw [derives']; rfl, same, same.types.map _, ?_, resolvers, ?_⟩
  · rw [List.map_map, names]
    exact same.named.nodup
  · simp only [resolvers]

theorem read_reordered {source source' : String} {defs defs' : List Definition}
    (parsed : Definition.readAll? source = some defs)
    (parsed' : Definition.readAll? source' = some defs')
    (same : Definition.Reordered defs defs') {b : Blueprint} (accepted : read source = .ok b) :
    ∃ b', read source' = .ok b' ∧ b.Alike b' := by
  obtain ⟨d, read, made⟩ := Document.bind_ok accepted
  unfold Document.read at read
  rw [parsed] at read
  obtain ⟨d', read', alike⟩ := Document.ofDefinitions_reordered same read
  obtain ⟨b', made', alike'⟩ := ofDocument_reordered alike made
  refine ⟨b', ?_, alike'⟩
  unfold Blueprint.read Document.read
  rw [parsed']
  change (Document.ofDefinitions defs' >>= ofDocument) = _
  rw [read']
  exact made'

theorem attachAll_reordered {b b' : Blueprint} (same : b.Alike b') {hooks : List Attachment}
    {c : Blueprint} (attached : Session.attachAll b hooks = .ok c) :
    ∃ c', Session.attachAll b' hooks = .ok c' ∧ c.Alike c' := by
  induction hooks generalizing b b' with
  | nil =>
    obtain rfl := Except.ok.inj attached
    exact ⟨b', rfl, same⟩
  | cons a rest ih =>
    unfold Session.attachAll at attached ⊢
    split at attached
    · rename_i next one
      obtain ⟨places, put, one⟩ := Document.bind_ok one
      obtain rfl := Except.ok.inj one
      have one' : b'.attach a.type a.field a.hook = .ok { b' with hooks := places } := by
        unfold attach
        rw [same.hooks, put]
        rfl
      rw [one']
      have alike : Alike { b with hooks := places } { b' with hooks := places } :=
        ⟨same.document, same.declared, same.distinct, same.resolvers, rfl⟩
      exact ih alike attached
    · cases attached

end Blueprint

end RowGraph
