import Mathlib.Data.List.Nodup
import RowGraph.Proofs.Schema.Derived
import RowGraph.Session
/-!
What a schema has of its document. Main statement: the resolver that a request meets at a field is
the one that was derived from the last declaration of that field, which is also the declaration
that the request meets.
-/

namespace RowGraph

-- The only one of its name is found, wherever it stands.
theorem find?_iff_mem {α : Type} {key : α → String} {as : List α} (nodup : (as.map key).Nodup)
    {name : String} {a : α} : as.find? (fun b => key b = name) = some a ↔ a ∈ as ∧ key a = name := by
  refine ⟨fun found => ⟨List.mem_of_find?_eq_some found, by simpa using List.find?_some found⟩, ?_⟩
  rintro ⟨member, rfl⟩
  obtain ⟨b, found⟩ : ∃ b, as.find? (fun b => key b = key a) = some b := by
    rw [← Option.isSome_iff_exists, List.find?_isSome]
    exact ⟨a, member, decide_eq_true rfl⟩
  have named : key b = key a := by simpa using List.find?_some found
  rw [found, List.inj_on_of_nodup_map nodup (List.mem_of_find?_eq_some found) member named]

namespace Document

theorem find?_of_nodup {types : List TypeDef} (nodup : (types.map TypeDef.name).Nodup)
    {t : TypeDef} (member : t ∈ types) : types.find? (fun u => u.name = t.name) = some t :=
  (find?_iff_mem nodup).mpr ⟨member, rfl⟩

theorem objectFields?_of_mem {d : Document} (nodup : (d.types.map TypeDef.name).Nodup)
    {type : String} {fields : List FieldDef} (member : (type, fields) ∈ d.objects) :
    d.objectFields? type = some fields := by
  obtain ⟨t, declared, shown⟩ := List.mem_filterMap.mp member
  obtain ⟨fields', object, same⟩ := Option.map_eq_some_iff.mp shown
  obtain ⟨rfl, rfl⟩ := Prod.mk.inj same
  rw [objectFields?, type?, find?_of_nodup nodup declared]
  exact object

theorem rootObject_fields {d : Document} {root type : String} {fields : List FieldDef}
    (same : (type, fields) = d.rootObject root) {f : FieldDef} (inside : f ∈ fields) :
    d.objectFields? type = some fields := by
  obtain ⟨rfl, rfl⟩ := Prod.mk.inj same
  cases declared : d.objectFields? type with
  | none => rw [declared] at inside; cases inside
  | some fields => rfl

theorem served_fields {d : Document} (nodup : (d.types.map TypeDef.name).Nodup) {type : String}
    {fields : List FieldDef} (member : (type, fields) ∈ d.served) {f : FieldDef}
    (inside : f ∈ fields) : d.objectFields? type = some fields := by
  rcases List.mem_append.mp member with others | mutation
  · rcases List.mem_append.mp others with others | entry
    · rcases List.mem_append.mp others with root | table
      · exact rootObject_fields (List.mem_singleton.mp root) inside
      · exact objectFields?_of_mem nodup (List.mem_of_mem_filter table)
    · exact objectFields?_of_mem nodup (List.mem_of_mem_filter entry)
  · obtain ⟨root, _, same⟩ := List.mem_map.mp mutation
    exact rootObject_fields same.symm inside

-- Every type has a name of its own, which is not that of a built-in scalar.
structure Named (types : List TypeDef) : Prop where
  nodup : (types.map TypeDef.name).Nodup
  own : ∀ t ∈ types, builtinScalars.contains t.name = false

theorem Accepted.add_named {a b : Accepted} {definition : Definition}
    (accepted : a.add definition = .ok b) (named : Named a.types) : Named b.types := by
  unfold Accepted.add at accepted
  cases definition with
  | roots d =>
    simp only at accepted
    split at accepted
    · cases accepted
    · split at accepted
      · cases accepted
      · split at accepted
        · cases accepted
        · split at accepted
          · obtain rfl := Except.ok.inj accepted
            exact named
          · cases accepted
  | type d =>
    simp only at accepted
    split at accepted
    · cases accepted
    · split at accepted
      · cases accepted
      · rename_i other
        split at accepted
        · cases accepted
        · rename_i fresh
          obtain rfl := Except.ok.inj accepted
          refine ⟨?_, ?_⟩
          · rw [List.map_append, List.map_singleton, List.nodup_append]
            refine ⟨named.nodup, by simp, ?_⟩
            intro name old name' new same
            obtain rfl := List.mem_singleton.mp new
            obtain ⟨t, member, rfl⟩ := List.mem_map.mp old
            exact fresh (by simpa using ⟨t, member, same⟩)
          · intro t member
            rcases List.mem_append.mp member with old | new
            · exact named.own t old
            · rw [List.mem_singleton.mp new]
              simpa using other
  | directive name =>
    obtain rfl := Except.ok.inj accepted
    exact named

theorem Accepted.addAll_named {a b : Accepted} {defs : List Definition}
    (accepted : a.addAll defs = .ok b) (named : Named a.types) : Named b.types := by
  induction defs generalizing a with
  | nil =>
    obtain rfl := Except.ok.inj accepted
    exact named
  | cons d rest ih =>
    obtain ⟨next, added, accepted⟩ := bind_ok accepted
    exact ih accepted (add_named added named)

-- A document after analysis names every type once, and its entry types are those of its types.
theorem read_ok {source : String} {d : Document} (accepted : read source = .ok d) :
    Named d.types ∧ d.entries = d.entryTypes := by
  unfold read at accepted
  split at accepted
  · rename_i defs _
    obtain ⟨a, added, accepted⟩ := bind_ok accepted
    have named := Accepted.addAll_named added ⟨List.nodup_nil, fun _ absurd => nomatch absurd⟩
    simp only at accepted
    split at accepted
    · cases accepted
    · split at accepted
      · split at accepted
        · cases accepted
        · obtain rfl := Except.ok.inj accepted
          exact ⟨named, rfl⟩
      · obtain rfl := Except.ok.inj accepted
        exact ⟨named, rfl⟩
  · cases accepted

end Document

namespace Schema

-- A schema that was made from a text, with whatever hooks.
def Built (s : Schema) : Prop := ∃ settings source hooks, Session.build settings source hooks = .ok s

-- What such a schema has of its document.
structure Grounded (s : Schema) : Prop where
  named : Document.Named s.document.types
  entries : s.document.entries = s.document.entryTypes
  derived : ∃ derived, s.document.derive = .ok derived ∧ s.resolvers = FieldMap.ofList derived
  catalog : s.catalog = Catalog.ofDocument s.document s.settings.introspection

end Schema

theorem ok_of_toOption {ε α : Type} {x : Except ε α} {a : α} (made : x.toOption = some a) :
    x = .ok a := by
  cases x with
  | error e => cases made
  | ok a' => rw [Option.some.inj made]

theorem Session.build_ok {settings : Settings} {source : String} {hooks : List Attachment}
    {s : Schema} (accepted : build settings source hooks = .ok s) :
    ∃ b b', Blueprint.read source = .ok b ∧ attachAll b hooks = .ok b' ∧ b'.finish settings = .ok s := by
  delta build at accepted
  cases read : Blueprint.read source with
  | error p => rw [read] at accepted; cases accepted
  | ok b =>
    rw [read] at accepted
    obtain ⟨_, same, accepted⟩ := Document.bind_ok accepted
    obtain rfl := Except.ok.inj same
    obtain ⟨b', attached, accepted⟩ := Document.bind_ok accepted
    exact ⟨b, b', rfl, attached, accepted⟩

theorem Session.attachAll_ok {b b' : Blueprint} {hooks : List Attachment}
    (accepted : attachAll b hooks = .ok b') :
    b'.document = b.document ∧ b'.resolvers = b.resolvers ∧ b'.declared = b.declared := by
  induction hooks generalizing b with
  | nil =>
    obtain rfl := Except.ok.inj accepted
    exact ⟨rfl, rfl, rfl⟩
  | cons a rest ih =>
    unfold attachAll at accepted
    split at accepted
    · rename_i next attached
      obtain ⟨_, _, attached⟩ := Document.bind_ok attached
      obtain rfl := Except.ok.inj attached
      have kept := ih accepted
      exact kept
    · cases accepted

theorem Catalog.name_of_type? {c : Catalog} {name : String} {t : TypeDef}
    (found : c.type? name = some t) : t.name = name := by
  simpa using List.find?_some found

theorem Catalog.type?_name {c : Catalog} {name : String} {t : TypeDef}
    (found : c.type? name = some t) : c.type? t.name = some t := by
  rw [Catalog.name_of_type? found]
  exact found

namespace Schema

theorem Built.grounded {s : Schema} (built : s.Built) : s.Grounded := by
  obtain ⟨settings, source, hooks, accepted⟩ := built
  obtain ⟨b, b', read, attached, finished⟩ := Session.build_ok accepted
  obtain ⟨d, parsed, made⟩ := Document.bind_ok read
  obtain ⟨derived, derives, made⟩ := Document.bind_ok made
  obtain rfl := Except.ok.inj made
  obtain ⟨document, resolvers, _⟩ := Session.attachAll_ok attached
  unfold Blueprint.finish at finished
  split at finished
  · cases finished
  · obtain rfl := Except.ok.inj finished
    obtain ⟨named, entries⟩ := Document.read_ok parsed
    obtain rfl : b'.document = d := document
    exact ⟨named, entries, ⟨derived, derives, resolvers⟩, rfl⟩

theorem Grounded.type? {s : Schema} (grounded : s.Grounded) {name : String} {t : TypeDef}
    (declared : s.document.type? name = some t) : s.catalog.type? name = some t.distinct := by
  rw [grounded.catalog]
  unfold Catalog.type? Catalog.types Catalog.ofDocument
  rw [List.find?_append, List.find?_map]
  rw [show (fun t : TypeDef => decide (t.name = name)) ∘ TypeDef.distinct =
    fun t => decide (t.name = name) from rfl, show s.document.types.find? (fun t => t.name = name) =
    some t from declared]
  rfl

-- A field that has a resolver is declared: requests meet its last declaration, and its resolver is
-- the one that this declaration gave rise to.
theorem Grounded.serves {s : Schema} (grounded : s.Grounded) {type field : String} {r : Resolver}
    (resolves : FieldMap.get? s.resolvers type field = some r) :
    ∃ t fields f, s.document.type? type = some t ∧ t.body = .object fields ∧
      last? (fun g => g.name = field) fields = some f ∧ s.document.Serves f type r := by
  obtain ⟨derived, accepted, resolvers⟩ := grounded.derived
  rw [resolvers, FieldMap.get?_ofList] at resolves
  obtain ⟨⟨type', field', r'⟩, found, rfl⟩ := Option.map_eq_some_iff.mp resolves
  obtain ⟨rfl, rfl⟩ : type' = type ∧ field' = field := by simpa using (last?_some found).2
  have agree : ∀ (s' : String × FieldDef) (e : Document.Derived), s.document.Yields s' e →
      (s'.1 = type' && s'.2.name = field') = (e.1 = type' && e.2.1 = field') := by
    intro s' e yields
    rw [yields.1, yields.2.1]
  obtain ⟨⟨type, f⟩, last, rfl, _, serves⟩ :=
    last?_forall₂ (Document.derive_served accepted) agree found
  obtain ⟨fields, member, last⟩ := Document.last?_owned last
  have declared := Document.served_fields grounded.named.nodup member (last?_some last).1
  obtain ⟨t, known, object⟩ := Option.bind_eq_some_iff.mp declared
  refine ⟨t, fields, f, known, ?_, last, serves⟩
  unfold TypeDef.objectFields? at object
  split at object
  · rename_i fields' body
    rw [body, Option.some.inj object]
  · cases object

theorem Grounded.meets {s : Schema} (grounded : s.Grounded) {type field : String} {t : TypeDef}
    {f : FieldDef} {r : Resolver} (known : s.catalog.type? type = some t)
    (declared : t.field? field = some f) (resolves : FieldMap.get? s.resolvers type field = some r) :
    ∃ f₀ : FieldDef, f = f₀.distinctArguments ∧ s.document.Serves f₀ type r := by
  obtain ⟨t₀, fields, f₀, known₀, object, last, serves⟩ := grounded.serves resolves
  obtain rfl : t₀.distinct = t := Option.some.inj ((grounded.type? known₀).symm.trans known)
  rw [TypeDef.field?_distinct object, last] at declared
  exact ⟨f₀, (Option.some.inj declared).symm, serves⟩

end Schema

end RowGraph
