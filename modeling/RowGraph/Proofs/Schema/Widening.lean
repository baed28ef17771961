import RowGraph.Proofs.Schema.Writing
/-!
Documents with one more type. The old types do not mention the new name, or the document would not
have been made into a blueprint; so what an old name stands for is found without the new type. Main
statement: whatever the new type is, and whatever it wraps, the old names keep their kinds and the
tables that they wrap, and the fields of the old types keep their resolvers.
-/

namespace RowGraph

theorem FieldShape.classify_congr {lookup lookup' : TypeLookup} {type : TypeExpr}
    (kind : lookup'.kindOf type.name = lookup.kindOf type.name)
    (entry : lookup'.entryTable type.name = lookup.entryTable type.name) :
    classify lookup' type = classify lookup type := by
  induction type with
  | named name nonNull =>
    change lookup'.kindOf name = lookup.kindOf name at kind
    change lookup'.entryTable name = lookup.entryTable name at entry
    unfold classify ofName
    rw [kind, entry]
  | list item nonNull ih =>
    unfold classify
    rw [ih kind entry]

namespace Document

theorem filter_named {objects objects' : List (String × α)} {type : String}
    (same : objects'.filter (fun o => o.1 = type) = objects.filter fun o => o.1 = type)
    {p p' : String × α → Bool} (agree : ∀ o, o.1 = type → p' o = p o) :
    (objects'.filter p').filter (fun o => o.1 = type) =
      (objects.filter p).filter fun o => o.1 = type := by
  have inside : (objects.filter fun o => o.1 = type).filter p' =
      (objects.filter fun o => o.1 = type).filter p :=
    List.filter_congr fun o member => agree o (of_decide_eq_true (List.mem_filter.mp member).2)
  rw [List.filter_comm, same, inside, List.filter_comm]

theorem mapM_carried {ε α β : Type} {f g : α → Except ε β} {as : List α} {bs : List β}
    (accepted : as.mapM f = .ok bs) (carried : ∀ a ∈ as, ∀ b, f a = .ok b → g a = .ok b) :
    as.mapM g = .ok bs := by
  induction as generalizing bs with
  | nil => exact accepted
  | cons a rest ih =>
    rw [List.mapM_cons] at accepted ⊢
    obtain ⟨b, first, accepted⟩ := bind_ok accepted
    obtain ⟨bs', later, accepted⟩ := bind_ok accepted
    rw [carried a List.mem_cons_self b first,
      ih later fun c member => carried c (List.mem_cons_of_mem _ member)]
    exact accepted

-- The second document has one more type than the first, in front of its types.
structure Widens (d : Document) (t : TypeDef) (d' : Document) : Prop where
  query : d'.query = d.query
  mutation : d'.mutation = d.mutation
  types : d'.types = t :: d.types
  named : Named d'.types
  entries : d.entries = d.entryTypes
  entries' : d'.entries = d'.entryTypes
  roots : ∀ name, d.isRoot name = true → (d.type? name).isSome = true

namespace Widens

variable {d d' : Document} {t : TypeDef} (wide : d.Widens t d')

include wide

theorem named_old : Named d.types := by
  have named := wide.named
  rw [wide.types] at named
  exact ⟨(List.nodup_cons.mp named.nodup).2, fun u old => named.own u (List.mem_cons_of_mem _ old)⟩

theorem own : builtinScalars.contains t.name = false :=
  wide.named.own t (wide.types ▸ List.mem_cons_self)

theorem type?_new : d.type? t.name = none := by
  have named := wide.named.nodup
  rw [wide.types, List.map_cons] at named
  refine List.find?_eq_none.mpr fun u old same => (List.nodup_cons.mp named).1 ?_
  exact List.mem_map.mpr ⟨u, old, of_decide_eq_true same⟩

theorem type? {name : String} (old : name ≠ t.name) : d'.type? name = d.type? name := by
  unfold Document.type?
  rw [wide.types, List.find?_cons_of_neg (by simpa using old.symm)]

theorem isRoot : d'.isRoot = d.isRoot := by
  funext name
  rw [Document.isRoot, Document.isRoot, wide.query, wide.mutation]

theorem not_new {name : String} (known : (d.type? name).isSome = true) : name ≠ t.name := by
  rintro rfl
  rw [wide.type?_new] at known
  cases known

theorem objectFields? {name : String} (old : name ≠ t.name) :
    d'.objectFields? name = d.objectFields? name := by
  rw [Document.objectFields?, Document.objectFields?, wide.type? old]

theorem inputFields? {name : String} (old : name ≠ t.name) :
    d'.inputFields? name = d.inputFields? name := by
  rw [Document.inputFields?, Document.inputFields?, wide.type? old]

theorem mem_objects {name : String} {fields : List FieldDef} (old : name ≠ t.name) :
    (name, fields) ∈ d'.objects ↔ (name, fields) ∈ d.objects := by
  rw [← objectFields?_iff wide.named.nodup, ← objectFields?_iff wide.named_old.nodup,
    wide.objectFields? old]

theorem kindOf_known {name : String} {kind : NamedKind} (known : d.kindOf name = some kind) :
    name ≠ t.name := by
  rintro rfl
  rw [kindOf, wide.own, wide.type?_new] at known
  cases known

theorem object_known {name : String} {fields : List FieldDef} (known : (name, fields) ∈ d.objects) :
    name ≠ t.name :=
  wide.not_new (Option.isSome_of_eq_some
    (Option.bind_eq_some_iff.mp ((objectFields?_iff wide.named_old.nodup).mpr known)).choose_spec.1)

-- The fields of object types that are no roots.
theorem settled {es : List Derived} (derives : d.derive = .ok es) {name : String}
    {fields : List FieldDef} (known : (name, fields) ∈ d.objects) (notRoot : d.isRoot name = false) :
    ∀ f ∈ fields, f.type.name ≠ t.name := by
  intro f inside
  cases entry : d.isEntry name with
  | false =>
    obtain ⟨_, _, derives⟩ := bind_ok derives
    obtain ⟨_, tabled, _⟩ := bind_ok derives
    have table : (name, fields) ∈ d.tables :=
      List.mem_filter.mpr ⟨known, by simp [notRoot, entry]⟩
    have there : (name, f) ∈ owned d.tables := mem_owned.mpr ⟨fields, table, inside⟩
    obtain ⟨e, made⟩ := mapM_ok tabled there
    obtain ⟨shape, classified, _⟩ := bind_ok made
    obtain ⟨kind, shown, _⟩ := FieldShape.classify_kindOf classified
    exact wide.kindOf_known shown
  | true =>
    obtain ⟨table, wraps⟩ := isEntry_iff.mp entry
    have nodup := wide.named_old.nodup
    have form := (formed_iff nodup known notRoot).mp
      ((entryTable?_iff nodup wide.entries).mp wraps).1
    have scalar (builtin : builtinScalars.contains f.type.name = true) : f.type.name ≠ t.name := by
      intro same
      rw [same, wide.own] at builtin
      cases builtin
    rcases form.named f inside with value | stamp | id
    · obtain ⟨_, inner, declared⟩ := form.row f inside value
      exact wide.object_known declared
    · rcases form.stamp f inside stamp with text | number
      · exact scalar (by rw [text]; decide)
      · exact scalar (by rw [number]; decide)
    · exact scalar (by rw [form.id f inside id]; decide)

theorem form_iff {fields : List FieldDef} {held : String}
    (settled : ∀ f ∈ fields, f.type.name ≠ t.name) : d'.Form fields held ↔ d.Form fields held := by
  have row (f : FieldDef) (inside : f ∈ fields) :
      (d'.isRoot f.type.name = false ∧ ∃ inner, (f.type.name, inner) ∈ d'.objects) ↔
        d.isRoot f.type.name = false ∧ ∃ inner, (f.type.name, inner) ∈ d.objects := by
    rw [wide.isRoot]
    exact and_congr_right fun _ => exists_congr fun inner => wide.mem_objects (settled f inside)
  exact ⟨fun form => ⟨form.plain, form.named, fun f inside value => (row f inside).mp
      (form.row f inside value), form.stamp, form.id, form.stamped, form.held⟩,
    fun form => ⟨form.plain, form.named, fun f inside value => (row f inside).mpr
      (form.row f inside value), form.stamp, form.id, form.stamped, form.held⟩⟩

theorem formed_iff {es : List Derived} (derives : d.derive = .ok es) {name held : String}
    (old : name ≠ t.name) : d'.Formed name held ↔ d.Formed name held := by
  unfold Formed
  rw [wide.isRoot]
  refine and_congr_right fun notRoot => exists_congr fun fields => ?_
  rw [wide.mem_objects old]
  exact and_congr_right fun known => wide.form_iff (wide.settled derives known notRoot)

theorem entryTable? {es : List Derived} (derives : d.derive = .ok es) {name : String}
    (old : name ≠ t.name) : d'.entryTable? name = d.entryTable? name := by
  apply Option.ext
  intro table
  rw [entryTable?_iff wide.named.nodup wide.entries',
    entryTable?_iff wide.named_old.nodup wide.entries, wide.formed_iff derives old]
  -- What an old type wraps is old.
  refine and_congr_right fun ⟨_, _, _, form⟩ => forall_congr' fun inner => not_congr ?_
  obtain ⟨_, fields, declared⟩ := form.inner
  exact wide.formed_iff derives (wide.object_known declared)

theorem isEntry {es : List Derived} (derives : d.derive = .ok es) {name : String}
    (old : name ≠ t.name) : d'.isEntry name = d.isEntry name := by
  rw [Document.isEntry, Document.isEntry, wide.entryTable? derives old]

theorem kindOf {es : List Derived} (derives : d.derive = .ok es) {name : String}
    (old : name ≠ t.name) : d'.kindOf name = d.kindOf name := by
  unfold Document.kindOf
  rw [wide.type? old, wide.isRoot, wide.isEntry derives old]

theorem classify {es : List Derived} (derives : d.derive = .ok es) {type : TypeExpr}
    {shape : FieldShape} (classified : FieldShape.classify d.lookup type = .ok shape) :
    FieldShape.classify d'.lookup type = .ok shape := by
  obtain ⟨kind, shown, _⟩ := FieldShape.classify_kindOf classified
  have old := wide.kindOf_known shown
  rw [← classified]
  exact FieldShape.classify_congr (wide.kindOf derives old) (wide.entryTable? derives old)

theorem rootField {es : List Derived} (derives : d.derive = .ok es) {f : FieldDef} {e : Derived}
    (made : d.rootField f = .ok e) : d'.rootField f = .ok e := by
  obtain ⟨shape, classified, made⟩ := bind_ok made
  unfold Document.rootField
  rw [wide.classify derives classified, wide.query]
  exact made

theorem tableField {es : List Derived} (derives : d.derive = .ok es) {table : String} {f : FieldDef}
    {e : Derived} (made : d.tableField table f = .ok e) : d'.tableField table f = .ok e := by
  obtain ⟨shape, classified, made⟩ := bind_ok made
  unfold Document.tableField
  rw [wide.classify derives classified]
  exact made

theorem inputFields?_known {name : String} {fields : List InputDef}
    (known : d.inputFields? name = some fields) : d'.inputFields? name = some fields := by
  obtain ⟨u, declared, _⟩ := Option.bind_eq_some_iff.mp known
  rw [wide.inputFields? (wide.not_new (Option.isSome_of_eq_some declared)), known]

theorem binding {es : List Derived} (derives : d.derive = .ok es) {input : String} {f : InputDef}
    {b : Binding} (bound : d.binding input f = .ok b) : d'.binding input f = .ok b := by
  have table : d'.isTable b.table = d.isTable b.table := by
    have known := (binding_ok bound).table
    rw [isTable, isTable, wide.kindOf derives (wide.kindOf_known (of_decide_eq_true known))]
  obtain ⟨use, only, argument⟩ := (binding_ok bound).directive
  simp only [Document.binding, only, argument, table, bind, Except.bind] at bound ⊢
  split at bound
  · cases bound
  · rename_i known
    rw [if_neg known]
    cases items : d.inputFields? f.type.name with
    | none =>
      rw [items] at bound
      cases bound
    | some fields =>
      rw [items] at bound
      rw [wide.inputFields?_known items]
      exact bound

theorem resultOf {es : List Derived} (derives : d.derive = .ok es) {f : FieldDef}
    {result : MutationResult} (shown : d.resultOf f = .ok result) :
    d'.resultOf f = .ok result := by
  obtain ⟨shape, classified, shown⟩ := bind_ok shown
  unfold Document.resultOf
  rw [wide.classify derives classified]
  split at shown
  · rename_i scalar
    simp only [bind, Except.bind, scalar]
    exact shown
  · rename_i table single
    simp only [bind, Except.bind, single]
    split at shown
    · cases shown
    · rename_i plain
      rw [if_neg plain]
      cases declared : d.objectFields? table with
      | none =>
        rw [declared] at shown
        cases shown
      | some fields =>
        obtain ⟨u, known, _⟩ := Option.bind_eq_some_iff.mp declared
        rw [wide.objectFields? (wide.not_new (Option.isSome_of_eq_some known))]
        exact shown
  · cases shown

theorem mutationField {es : List Derived} (derives : d.derive = .ok es) {root : String}
    {f : FieldDef} {e : Derived} (made : d.mutationField root f = .ok e) :
    d'.mutationField root f = .ok e := by
  obtain ⟨plan, argument, fields, rfl, makes⟩ := mutationField_iff.mp made
  refine mutationField_iff.mpr ⟨plan, argument, fields, rfl, makes.alone, makes.single,
    wide.inputFields?_known makes.declared, ?_, makes.nullable, wide.resultOf derives makes.result,
    makes.named⟩
  exact mapM_carried makes.bindings fun i _ b => wide.binding derives

theorem rootFields {es roots : List Derived} (derives : d.derive = .ok es)
    (made : d.rootFields = .ok roots) : d'.rootFields = .ok roots := by
  have old : d.query ≠ t.name := wide.not_new (wide.roots _ (by simp [Document.isRoot]))
  unfold Document.rootFields at made ⊢
  rw [wide.query, wide.objectFields? old]
  exact mapM_carried made fun f _ e => wide.rootField derives

theorem mutationFields {es mutations : List Derived} (derives : d.derive = .ok es)
    (made : d.mutationFields = .ok mutations) : d'.mutationFields = .ok mutations := by
  unfold Document.mutationFields at made ⊢
  rw [wide.mutation]
  cases root : d.mutation with
  | none =>
    rw [root] at made
    exact made
  | some m =>
    have old : m ≠ t.name := wide.not_new (wide.roots m (by simp [Document.isRoot, root]))
    rw [root] at made
    dsimp only at made ⊢
    rw [wide.objectFields? old]
    exact mapM_carried made fun f _ e => wide.mutationField derives

theorem objects {type : String} (old : type ≠ t.name) :
    d'.objects.filter (fun o => o.1 = type) = d.objects.filter fun o => o.1 = type := by
  unfold Document.objects
  rw [wide.types, List.filterMap_cons]
  cases t.objectFields? with
  | none => rfl
  | some fields => exact List.filter_cons_of_neg (by simpa using old.symm)

theorem tables {es : List Derived} (derives : d.derive = .ok es) {type : String}
    (old : type ≠ t.name) :
    d'.tables.filter (fun o => o.1 = type) = d.tables.filter fun o => o.1 = type :=
  filter_named (wide.objects old) fun o named => by
    rw [wide.isRoot, wide.isEntry derives (named ▸ old)]

theorem entryObjects {es : List Derived} (derives : d.derive = .ok es) {type : String}
    (old : type ≠ t.name) :
    d'.entryObjects.filter (fun o => o.1 = type) = d.entryObjects.filter fun o => o.1 = type :=
  filter_named (wide.objects old) fun o named => by rw [wide.isEntry derives (named ▸ old)]

theorem tableFields {es tabled tabled' : List Derived} (derives : d.derive = .ok es)
    (made : d.tableFields = .ok tabled) (made' : d'.tableFields = .ok tabled') {type : String}
    (old : type ≠ t.name) :
    tabled'.filter (fun e => e.1 = type) = tabled.filter fun e => e.1 = type := by
  unfold Document.tableFields at made made'
  change (owned d.tables).mapM (fun s => d.tableField s.1 s.2) = .ok tabled at made
  change (owned d'.tables).mapM (fun s => d'.tableField s.1 s.2) = .ok tabled' at made'
  have agree (d : Document) (s : String × FieldDef) (e : Derived)
      (made : d.tableField s.1 s.2 = .ok e) : decide (s.1 = type) = decide (e.1 = type) := by
    rw [tableField_type made]
  have kept := mapM_filter (agree d) made
  have kept' := mapM_filter (agree d') made'
  rw [owned_named, ← wide.tables derives old, ← owned_named] at kept
  exact Except.ok.inj (kept'.symm.trans
    (mapM_carried kept fun s _ e => wide.tableField derives))

theorem entryFields {es : List Derived} (derives : d.derive = .ok es) {type : String}
    (old : type ≠ t.name) :
    d'.entryFields.filter (fun e => e.1 = type) = d.entryFields.filter fun e => e.1 = type := by
  rw [entryFields_owned, entryFields_owned, List.filter_map, List.filter_map]
  change ((owned d'.entryObjects).filter fun s => s.1 = type).map _ =
    ((owned d.entryObjects).filter fun s => s.1 = type).map _
  rw [owned_named, owned_named, wide.entryObjects derives old]

-- The fields of an old type are resolved as before, in the same order.
theorem derive {es es' : List Derived} (derives : d.derive = .ok es) (derives' : d'.derive = .ok es')
    {type : String} (old : type ≠ t.name) :
    es'.filter (fun e => e.1 = type) = es.filter fun e => e.1 = type := by
  obtain ⟨roots, rooted, made⟩ := bind_ok derives
  obtain ⟨tabled, tables, made⟩ := bind_ok made
  obtain ⟨mutations, mutated, made⟩ := bind_ok made
  obtain ⟨roots', rooted', made'⟩ := bind_ok derives'
  obtain ⟨tabled', tables', made'⟩ := bind_ok made'
  obtain ⟨mutations', mutated', made'⟩ := bind_ok made'
  obtain rfl := Except.ok.inj made
  obtain rfl := Except.ok.inj made'
  obtain rfl := Except.ok.inj (rooted'.symm.trans (wide.rootFields derives rooted))
  obtain rfl := Except.ok.inj (mutated'.symm.trans (wide.mutationFields derives mutated))
  simp only [List.filter_append, wide.tableFields derives tables tables' old,
    wide.entryFields derives old]

end Widens

-- A document of the same definitions and one of a type besides. The roots stay what they were.
theorem ofDefinitions_widens {defs : List Definition} {t : TypeDef} {d d' : Document}
    (accepted : ofDefinitions defs = .ok d) (accepted' : ofDefinitions (.type t :: defs) = .ok d')
    (usual : defs.flatMap Definition.named = [] → t.name ≠ "Mutation") : d.Widens t d' := by
  obtain ⟨a, added, rfl, query, mutation⟩ := ofDefinitions_iff.mp accepted
  obtain ⟨a', added', rfl, _, _⟩ := ofDefinitions_iff.mp accepted'
  have takes := (Accepted.addAll_takes (a := {}) List.nodup_nil).mp added
  have takes' := (Accepted.addAll_takes (a := {}) List.nodup_nil).mp added'
  have named := Accepted.addAll_named added' ⟨List.nodup_nil, fun _ absurd => nomatch absurd⟩
  have types : a'.types = t :: a.types := by
    rw [takes'.types, takes.types]
    rfl
  have roots : a'.roots = a.roots := toList_inj (takes'.roots.trans takes.roots.symm)
  have names : a'.rootNames = a.rootNames := by
    unfold Accepted.rootNames
    rw [roots, types]
    cases given : a.roots with
    | some r => rfl
    | none =>
      have unnamed : defs.flatMap Definition.named = [] := by
        have named := takes.roots
        rw [given] at named
        exact named.symm
      have other := usual unnamed
      simp [other]
  refine ⟨congrArg Prod.fst names, congrArg Prod.snd names, types, named, rfl, rfl, ?_⟩
  intro name root
  have object (shown : (a.document.objectFields? name).isSome = true) :
      (a.document.type? name).isSome = true := by
    obtain ⟨fields, shown⟩ := Option.isSome_iff_exists.mp shown
    obtain ⟨u, declared, _⟩ := Option.bind_eq_some_iff.mp shown
    exact Option.isSome_of_eq_some declared
  rcases Bool.or_eq_true_iff.mp root with same | same
  · exact object (of_decide_eq_true same ▸ query)
  · exact object (mutation name (of_decide_eq_true same))

end Document

end RowGraph
