import RowGraph.Proofs.Schema.Built
/-!
Names that the types of a schema mention. Main statement: if a document declares no type in the
place of a describing one, every name that a type of its schema mentions stands for a type, and the
schema is described by the types that come with every document.
-/

namespace RowGraph

namespace Catalog

-- No declared type stands in the place of a describing one.
def Plain (c : Catalog) : Prop := ∀ t ∈ c.declared, Description.type? t.name = none

def Knows (c : Catalog) (name : String) : Prop := (c.type? name).isSome = true

theorem knows_type {c : Catalog} {t : TypeDef} (member : t ∈ c.types) : c.Knows t.name :=
  List.find?_isSome.mpr ⟨t, member, decide_eq_true rfl⟩

structure Closed (c : Catalog) : Prop where
  query : c.Knows c.query
  mutation : ∀ name, c.mutation = some name → c.Knows name
  scalars : ∀ name ∈ builtinScalars, c.Knows name
  mentions : ∀ t ∈ c.types, ∀ name ∈ t.mentions, c.Knows name
  describing : c.introspection = true → ∀ name t, Description.type? name = some t →
    c.type? name = some t
  own : Description.type? c.query = none

end Catalog

namespace Description

theorem type?_scalar : ∀ name ∈ builtinScalars, type? name = none := by decide +kernel

theorem type?_types {t : TypeDef} (member : t ∈ types) : type? t.name = some t :=
  Document.find?_of_nodup (by decide +kernel) member

-- What the describing types mention is one of them or a built-in scalar.
theorem mentions_types : ∀ t ∈ types, ∀ name ∈ t.mentions,
    (type? name).isSome = true ∨ name ∈ builtinScalars := by decide +kernel

theorem closure_types : ∀ t ∈ types,
    (closure (fun name => ((type? name).map TypeDef.mentions).getD []) (types.map TypeDef.name)
      ["__Schema"]).contains t.name = true := by decide +kernel

-- All of them come with a document that declares none of them.
theorem typesBeside_plain {declared : List String} (plain : ∀ name ∈ declared, type? name = none) :
    typesBeside declared = types := by
  have other (name : String) (member : declared.contains name = true) : type? name = none :=
    plain name (List.contains_iff_mem.mp member)
  have mentioned : (fun name => if declared.contains name then []
      else ((type? name).map TypeDef.mentions).getD []) =
      fun name => ((type? name).map TypeDef.mentions).getD [] := by
    funext name
    split
    · rename_i member
      rw [other name member]
      rfl
    · rfl
  unfold typesBeside
  simp only [mentioned]
  refine List.filter_eq_self.mpr fun t member => ?_
  rw [closure_types t member, Bool.true_and, Bool.not_eq_true']
  cases declared' : declared.contains t.name with
  | false => rfl
  | true => cases (other t.name declared').symm.trans (type?_types member)

end Description

namespace Blueprint

theorem missing_eq_nil {b : Blueprint} {names : List String} (none : b.missing names = []) :
    ∀ name ∈ names, (b.type? name).isSome = true := by
  intro name member
  have known := List.filter_eq_nil_iff.mp (List.map_eq_nil_iff.mp none) name member
  exact Option.isSome_iff_ne_none.mpr (by simpa using known)

-- A blueprint that can be finished knows the types that its own types mention.
theorem mentions_known {b : Blueprint} (none : b.missingTypes = []) {t : TypeDef}
    (declared : t ∈ b.declared) {name : String} (mentioned : name ∈ t.mentions) :
    (b.type? name).isSome = true := by
  have inside := List.flatMap_eq_nil_iff.mp (List.append_eq_nil_iff.mp none).2 t declared
  unfold TypeDef.mentions at mentioned
  cases body : t.body with
  | object fields =>
    simp only [body] at inside mentioned
    obtain ⟨types, arguments⟩ := List.append_eq_nil_iff.mp inside
    obtain ⟨f, member, mentioned⟩ := List.mem_flatMap.mp mentioned
    rcases List.mem_cons.mp mentioned with rfl | argument
    · exact missing_eq_nil types _ (List.mem_map_of_mem member)
    · exact missing_eq_nil arguments _ (List.mem_flatMap.mpr ⟨f, member, argument⟩)
  | input fields =>
    simp only [body] at inside mentioned
    exact missing_eq_nil inside _ mentioned
  | _ =>
    simp only [body] at mentioned
    cases mentioned

theorem finish_ok {b : Blueprint} {settings : Settings} {s : Schema}
    (finished : b.finish settings = .ok s) : b.missingTypes = [] ∧
      s.catalog = Catalog.ofDocument b.document settings.introspection := by
  unfold finish at finished
  split at finished
  · cases finished
  · rename_i sound
    obtain rfl := Except.ok.inj finished
    refine ⟨?_, rfl⟩
    have checks := List.map_eq_nil_iff.mp (List.append_eq_nil_iff.mp sound).2
    exact (List.append_eq_nil_iff.mp (List.append_eq_nil_iff.mp checks).1).1

end Blueprint

namespace Catalog

theorem scalars_known : ∀ name ∈ builtinScalars,
    (scalars.find? fun t => t.name = name).isSome = true := by decide +kernel

theorem scalars_mention : ∀ t ∈ scalars, t.mentions = [] := by decide +kernel

theorem scalars_name : ∀ t ∈ scalars, t.name ∈ builtinScalars := by decide +kernel

-- A catalog has the types of its blueprint, the built-in scalars and the describing types.
structure Stems (b : Blueprint) (c : Catalog) : Prop where
  query : c.query = b.document.query
  mutation : c.mutation = b.document.mutation
  types : c.types = b.declared ++ (scalars ++ if c.introspection then Description.types else [])
  plain : ∀ t ∈ b.declared, Description.type? t.name = none

namespace Stems

variable {b : Blueprint} {c : Catalog} (stems : Stems b c)

include stems

theorem known {name : String} (there : (b.type? name).isSome = true) : c.Knows name := by
  unfold Knows type?
  rw [stems.types, List.find?_append, List.find?_append]
  unfold Blueprint.type? at there
  cases own : b.declared.find? fun t => t.name = name with
  | some t => rfl
  | none =>
    rw [own] at there
    obtain ⟨t, scalar⟩ := Option.isSome_iff_exists.mp there
    rw [show scalars.find? (fun t => t.name = name) = some t from scalar]
    rfl

theorem scalar {name : String} (member : name ∈ builtinScalars) : c.Knows name := by
  refine stems.known ?_
  unfold Blueprint.type?
  cases b.declared.find? fun t => t.name = name with
  | some t => rfl
  | none => exact scalars_known name member

-- Nothing comes before a describing type under its name.
theorem describing (on : c.introspection = true) {name : String} {t : TypeDef}
    (found : Description.type? name = some t) : c.type? name = some t := by
  have fresh : b.declared.find? (fun t => t.name = name) = none := by
    refine List.find?_eq_none.mpr fun u member same => ?_
    have absurd := stems.plain u member
    rw [of_decide_eq_true same, found] at absurd
    cases absurd
  have unlike : scalars.find? (fun t => t.name = name) = none := by
    refine List.find?_eq_none.mpr fun u member same => ?_
    have absurd := Description.type?_scalar u.name (scalars_name u member)
    rw [of_decide_eq_true same, found] at absurd
    cases absurd
  unfold type?
  rw [stems.types, List.find?_append, List.find?_append, fresh, unlike, if_pos on]
  exact found

theorem mentions (none : b.missingTypes = []) {t : TypeDef} (member : t ∈ c.types) {name : String}
    (mentioned : name ∈ t.mentions) : c.Knows name := by
  rw [stems.types] at member
  rcases List.mem_append.mp member with own | builtin
  · exact stems.known (Blueprint.mentions_known none own mentioned)
  · rcases List.mem_append.mp builtin with plain | describes
    · rw [scalars_mention t plain] at mentioned
      cases mentioned
    · split at describes
      · rename_i on
        rcases Description.mentions_types t describes name mentioned with there | there
        · obtain ⟨u, found⟩ := Option.isSome_iff_exists.mp there
          unfold Knows
          rw [stems.describing on found]
          rfl
        · exact stems.scalar there
      · cases describes

theorem query_own (none : b.missingTypes = []) : Description.type? c.query = .none := by
  have roots := Blueprint.missing_eq_nil (List.append_eq_nil_iff.mp none).1
  obtain ⟨t, found⟩ := Option.isSome_iff_exists.mp (roots _ List.mem_cons_self)
  rw [stems.query]
  unfold Blueprint.type? at found
  rw [Option.orElse_eq_orElse, Option.orElse_eq_or] at found
  rcases Option.or_eq_some_iff.mp found with own | ⟨_, scalar⟩
  · have same : t.name = b.document.query := by simpa using List.find?_some own
    rw [← same]
    exact stems.plain t (List.mem_of_find?_eq_some own)
  · have same : t.name = b.document.query := by simpa using List.find?_some scalar
    rw [← same]
    exact Description.type?_scalar t.name (scalars_name t (List.mem_of_find?_eq_some scalar))

theorem closed (none : b.missingTypes = []) : c.Closed := by
  have roots := Blueprint.missing_eq_nil (List.append_eq_nil_iff.mp none).1
  refine ⟨?_, fun name same => ?_, fun _ => stems.scalar, fun _ member _ => stems.mentions none member,
    fun on _ _ => stems.describing on, stems.query_own none⟩
  · rw [stems.query]
    exact stems.known (roots _ List.mem_cons_self)
  · rw [stems.mutation] at same
    exact stems.known (roots name (List.mem_cons_of_mem _ (Option.mem_toList.mpr same)))

end Stems

theorem ofDocument_stems {b : Blueprint} (declared : b.declared = b.document.types.map .distinct)
    {introspection : Bool} (plain : (ofDocument b.document introspection).Plain) :
    Stems b (ofDocument b.document introspection) := by
  have own : ∀ t ∈ b.declared, Description.type? t.name = none := by
    rw [declared]
    exact plain
  refine ⟨rfl, rfl, ?_, own⟩
  have all : Description.typesBeside (b.declared.map fun t => t.name) = Description.types := by
    refine Description.typesBeside_plain fun name named => ?_
    obtain ⟨t, member, rfl⟩ := List.mem_map.mp named
    exact own t member
  rw [declared] at all ⊢
  rw [← all]
  rfl

end Catalog

theorem Schema.Built.closed {s : Schema} (built : s.Built) (plain : s.catalog.Plain) :
    s.catalog.Closed := by
  obtain ⟨settings, source, hooks, accepted⟩ := built
  obtain ⟨b, b', read, attached, finished⟩ := Session.build_ok accepted
  obtain ⟨d, _, made⟩ := Document.bind_ok read
  obtain ⟨derived, _, made⟩ := Document.bind_ok made
  obtain rfl := Except.ok.inj made
  obtain ⟨document, _, declared⟩ := Session.attachAll_ok attached
  obtain ⟨none, same⟩ := Blueprint.finish_ok finished
  rw [same] at plain ⊢
  refine (Catalog.ofDocument_stems ?_ plain).closed none
  rw [declared, document]

end RowGraph
