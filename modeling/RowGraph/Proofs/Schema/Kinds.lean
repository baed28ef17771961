import RowGraph.Proofs.Execution.Declared
import RowGraph.Proofs.Mutation.Queries
/-!
What a field that has a resolver shows. Main statements: its type is an object type, an enum or a
scalar that requests know, and a value that its resolver gives is never a stored null.
-/

namespace RowGraph

variable {σ : Type}

-- A type whose values a response can show.
inductive TypeDef.Shown (t : TypeDef) : Prop where
  | object {fields : List FieldDef} : t.body = .object fields → Shown t
  | enum {values : List String} : t.body = .enum values → Shown t
  | scalar : t.body = .scalar → Shown t

-- A name that requests know as such a type.
def Catalog.Shows (c : Catalog) (name : String) : Prop := ∃ t, c.type? name = some t ∧ t.Shown

theorem TypeDef.distinct_shown {t : TypeDef} (shown : t.Shown) : t.distinct.Shown := by
  cases shown with
  | object body => exact .object (by rw [distinct, body])
  | enum body => exact .enum (by rw [distinct, body])
  | scalar body => exact .scalar (by rw [distinct, body])

namespace Schema.Grounded

variable {s : Schema} (grounded : s.Grounded)

include grounded

theorem shows_declared {name : String} {t : TypeDef} (declared : s.document.type? name = some t)
    (shown : t.Shown) : s.catalog.Shows name :=
  ⟨_, grounded.type? declared, TypeDef.distinct_shown shown⟩

-- A built-in scalar is not declared, so its name stands for the scalar.
theorem type?_builtin {name : String} (builtin : builtinScalars.contains name = true) :
    ∃ t, s.catalog.type? name = some t ∧ t.body = .scalar := by
  have none : (s.document.types.map TypeDef.distinct).find? (fun t => t.name = name) = none := by
    refine List.find?_eq_none.mpr fun t member => ?_
    obtain ⟨t₀, declared, rfl⟩ := List.mem_map.mp member
    have own := grounded.named.own t₀ declared
    simp only [decide_eq_true_eq]
    rintro rfl
    rw [show t₀.distinct.name = t₀.name from rfl, own] at builtin
    cases builtin
  have found : ∃ t, Catalog.scalars.find? (fun t => t.name = name) = some t ∧ t.body = .scalar := by
    simp only [builtinScalars, List.contains_iff_mem, List.mem_cons, List.not_mem_nil, or_false]
      at builtin
    rcases builtin with rfl | rfl | rfl | rfl | rfl <;> exact ⟨_, rfl, rfl⟩
  obtain ⟨t, found, body⟩ := found
  refine ⟨t, ?_, body⟩
  rw [grounded.catalog]
  unfold Catalog.type? Catalog.types Catalog.ofDocument
  simp only [List.find?_append, none, found, Option.none_or, Option.some_or]

theorem shows_kind {name : String} {kind : NamedKind}
    (known : s.document.kindOf name = some kind) (output : kind ≠ .input ∧ kind ≠ .abstract) :
    s.catalog.Shows name := by
  unfold Document.kindOf at known
  split at known
  · rename_i builtin
    obtain ⟨t, found, body⟩ := grounded.type?_builtin builtin
    exact ⟨t, found, .scalar body⟩
  · split at known
    · cases known
    · rename_i t declared
      split at known
      · rename_i body
        exact grounded.shows_declared declared (.object body)
      · rename_i body
        exact grounded.shows_declared declared (.scalar body)
      · rename_i body
        exact grounded.shows_declared declared (.enum body)
      · exact absurd (Option.some.inj known).symm output.1
      · exact absurd (Option.some.inj known).symm output.2
      · exact absurd (Option.some.inj known).symm output.2

-- The type of a field that has a resolver.
theorem shows_field {type field : String} {t : TypeDef} {f : FieldDef} {r : Resolver}
    (known : s.catalog.type? type = some t) (declared : t.field? field = some f)
    (resolves : FieldMap.get? s.resolvers type field = some r) : s.catalog.Shows f.type.name := by
  obtain ⟨kind, named, output⟩ := grounded.kindOf_field known declared resolves
  exact grounded.shows_kind named output

end Schema.Grounded

theorem Value.toDatum_nonNull {v : Value} {d : Datum} (present : v.isNullish = false)
    (made : v.toDatum = .ok d) : d ≠ .null := by
  rintro rfl
  cases v with
  | none => cases present
  | null => cases present
  | float f =>
    rw [toDatum] at made
    split at made <;> cases made
  | array items =>
    rw [toDatum] at made
    cases inner : toDatumItems items <;> rw [inner] at made <;> cases made
  | object columns =>
    rw [toDatum] at made
    cases inner : toDatumColumns columns <;> rw [inner] at made <;> cases made
  | _ =>
    rw [toDatum] at made
    cases made

theorem Resolve.column_nonNull {name : String} {parent o : Outcome}
    (given : column name parent = .ok (some o)) : o ≠ .leaf .null := by
  obtain ⟨row, _, given⟩ := Document.bind_ok given
  split at given
  · rename_i v stored
    obtain ⟨d, made, given⟩ := Document.bind_ok given
    obtain rfl := Option.some.inj (Except.ok.inj given)
    have present : v.isNullish = false := by
      unfold stored? at stored
      split at stored
      · split at stored
        · cases stored
        · rename_i nonNull
          obtain rfl := Option.some.inj stored
          simpa using nonNull
      · cases stored
    rintro same
    cases same
    exact Value.toDatum_nonNull present made rfl
  · cases given

theorem Resolve.value_nonNull {parent o : Outcome} (given : value parent = .ok (some o)) :
    o ≠ .leaf .null := by
  obtain ⟨row, _, given⟩ := Document.bind_ok given
  split at given
  · obtain rfl := Option.some.inj (Except.ok.inj given)
    simp
  · cases given

theorem Delivers.nonNull {b : Backend σ} {table : String} {entry : Bool} {s s' : σ} {o : Outcome}
    (delivers : Delivers b table entry s s' o) : o ≠ .leaf .null := by
  rcases delivers with ⟨e, _, rfl⟩ | ⟨os, rfl, _⟩ <;> simp [Entry.outcome]

-- What a mutation shows is made of the stamp of its commit.
theorem Commit.mutation_result {b : Backend σ} {plan : MutationPlan} {arguments : Arguments}
    {r r' : Run σ} {o : Outcome}
    (given : mutation b plan arguments r = (.ok (some o), r')) : ∃ stamp, o = result plan stamp := by
  cases input : (Members.get? plan.argument arguments).bind Datum.asObject? with
  | none =>
    cases given.symm.trans (mutation_objectless b input r)
  | some members =>
    have ran := mutation_eq b (object_given.mp input) r
    rw [show (mutation b plan arguments).run r = _ from given] at ran
    split at ran
    · cases ran
    · split at ran
      · cases ran
      · unfold answered at ran
        split at ran
        · rename_i stamp _ _
          cases stamp with
          | none => cases ran
          | some stamp =>
            obtain ⟨same, _⟩ := Prod.mk.inj ran
            exact ⟨stamp, Option.some.inj (Except.ok.inj same)⟩
        · cases ran

theorem Commit.mutation_nonNull {b : Backend σ} {plan : MutationPlan} {arguments : Arguments}
    {r r' : Run σ} {o : Outcome}
    (given : mutation b plan arguments r = (.ok (some o), r')) : o ≠ .leaf .null := by
  obtain ⟨stamp, rfl⟩ := mutation_result given
  unfold result
  cases plan.result <;> simp

-- A resolver has no null to give: it gives nothing instead.
theorem Declared.nonNull {x : Execution σ} (grounded : x.schema.Grounded) {type field : String}
    {here : Path} {loc : Location} {arguments : Arguments} {parent o : Outcome} {r r' : Run σ}
    (declared : Declared x type field here loc arguments parent r (.ok (some o), r')) :
    o ≠ .leaf .null := by
  generalize answer : (Except.ok (some o), r') = ran at declared
  cases declared with
  | refused => cases answer
  | unserved => cases answer
  | @resolved first r'' resolver result _ served _ ran resolved =>
    obtain ⟨same, rfl⟩ := Prod.mk.inj answer
    cases result with
    | error e => cases same
    | ok found =>
      obtain rfl := Except.ok.inj same
      have delivered {shape : FieldShape} (shaped : resolver.shape? = some shape)
          (kind : shape.kind ≠ .scalar) : o ≠ .leaf .null := by
        obtain ⟨table, named⟩ : ∃ table, shape.table? = some table := by
          unfold FieldShape.table?
          cases same : shape.kind with
          | scalar => exact absurd same kind
          | reference table => exact ⟨_, rfl⟩
          | referenceList table required => exact ⟨_, rfl⟩
        exact (resolved.delivers shape table o shaped named rfl).nonNull
      have gives {y : Except GraphError (Option Outcome)}
          (same : x.resolver here loc arguments parent resolver first =
            (liftM y : Resolving σ (Option Outcome)) first) : y = .ok (some o) := by
        rw [ran] at same
        cases y with
        | error e => cases same
        | ok found => exact (Prod.mk.inj same).1.symm
      obtain ⟨_, _, _, _, _, _, serves⟩ := grounded.serves served
      cases serves with
      | root _ kind => exact delivered rfl kind
      | reference _ _ kind => exact delivered rfl kind
      | column => exact Resolve.column_nonNull (gives rfl)
      | shown => exact Resolve.column_nonNull (gives rfl)
      | value => exact Resolve.value_nonNull (gives rfl)
      | mutation => exact Commit.mutation_nonNull ran

end RowGraph
