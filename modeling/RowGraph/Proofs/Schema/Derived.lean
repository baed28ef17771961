import RowGraph.Proofs.Schema.Last
import RowGraph.Schema.Derivation
/-!
The resolvers that a document gives rise to, as a relation: what resolver a field of a type has, and
what was found out about the field before it got it. Main statement: the derived resolvers are those
of the served types, field by field in document order.
-/

namespace RowGraph.Document

-- One field of a mutation input: its only operation directive says what its items do, and to which
-- table.
structure Bound (d : Document) (f : InputDef) (b : Binding) : Prop where
  field : b.field = f.name
  directive : ∃ use, operationsOf f = [(b.op, use)] ∧
    use.argument? tableArgument = some (.string b.table)
  table : d.isTable b.table = true

-- A mutation field: its only argument is an object of an input type, and each field of that type
-- has its binding, in document order.
structure Mutates (d : Document) (f : FieldDef) (plan : MutationPlan) : Prop where
  input : ∃ argument fields, f.arguments = [argument] ∧ argument.name = plan.argument ∧
    argument.type.isList = false ∧ d.inputFields? argument.type.name = some fields ∧
    List.Forall₂ (Bound d) fields plan.bindings
  nullable : f.type.nonNull = false
  result : d.resultOf f = .ok plan.result

-- What kind of resolver a field of a type has, and why.
inductive Serves (d : Document) (f : FieldDef) : String → Resolver → Prop where
  | root {argument : String} {shape : FieldShape} :
      FieldShape.classify d.lookup f.type = .ok shape → shape.kind ≠ .scalar →
      Serves d f d.query (.root argument shape)
  | column {type : String} {fields : List FieldDef} {shape : FieldShape} :
      (type, fields) ∈ d.tables → FieldShape.classify d.lookup f.type = .ok shape →
      shape.kind = .scalar → Serves d f type (.column f.name)
  | reference {type : String} {fields : List FieldDef} {shape : FieldShape} :
      (type, fields) ∈ d.tables → FieldShape.classify d.lookup f.type = .ok shape →
      shape.kind ≠ .scalar → Serves d f type (.reference f.name shape)
  | shown {type : String} {fields : List FieldDef} :
      (type, fields) ∈ d.entryObjects → f ∈ fields → f.name ≠ valueField →
      Serves d f type (.column f.name)
  | value {type : String} {fields : List FieldDef} :
      (type, fields) ∈ d.entryObjects → f ∈ fields → f.name = valueField →
      Serves d f type .value
  | mutation {type : String} {plan : MutationPlan} :
      d.mutation = some type → Mutates d f plan → Serves d f type (.mutation plan)

def Yields (d : Document) (s : String × FieldDef) (e : Derived) : Prop :=
  e.1 = s.1 ∧ e.2.1 = s.2.name ∧ Serves d s.2 s.1 e.2.2

def owned (objects : List (String × List FieldDef)) : List (String × FieldDef) :=
  objects.flatMap fun o => o.2.map fun f => (o.1, f)

def rootObject (d : Document) (root : String) : String × List FieldDef :=
  (root, (d.objectFields? root).getD [])

-- The object types whose fields are given resolvers, in that order.
def served (d : Document) : List (String × List FieldDef) :=
  [d.rootObject d.query] ++ d.tables ++ d.entryObjects ++ d.mutation.toList.map d.rootObject

theorem bind_ok {ε : Type} {x : Except ε α} {f : α → Except ε β} {b : β}
    (accepted : (x >>= f) = .ok b) : ∃ a, x = .ok a ∧ f a = .ok b := by
  cases x with
  | error e => cases accepted
  | ok a => exact ⟨a, rfl, accepted⟩

theorem mapM_forall₂ {ε : Type} {f : α → Except ε β} {as : List α} {bs : List β}
    (accepted : as.mapM f = .ok bs) : List.Forall₂ (fun a b => f a = .ok b) as bs := by
  induction as generalizing bs with
  | nil =>
    obtain rfl : [] = bs := Except.ok.inj accepted
    exact .nil
  | cons a rest ih =>
    rw [List.mapM_cons] at accepted
    obtain ⟨b, first, accepted⟩ := bind_ok accepted
    obtain ⟨bs', later, accepted⟩ := bind_ok accepted
    obtain rfl : b :: bs' = bs := Except.ok.inj accepted
    exact .cons first (ih later)

theorem rootField_ok {d : Document} {f : FieldDef} {e : Derived} (accepted : d.rootField f = .ok e) :
    Yields d (d.query, f) e := by
  obtain ⟨shape, classified, accepted⟩ := bind_ok accepted
  have reference : shape.kind ≠ .scalar := by
    intro scalar
    rw [scalar] at accepted
    cases accepted
  have found : ∃ argument, e = (d.query, f.name, .root argument shape) := by
    simp only [bind, Except.bind] at accepted
    split at accepted
    · cases accepted
    · split at accepted
      · rename_i argument _
        exact ⟨argument, (Except.ok.inj accepted).symm⟩
      · cases accepted
    · split at accepted
      · rename_i argument _
        exact ⟨argument, (Except.ok.inj accepted).symm⟩
      · cases accepted
  obtain ⟨argument, rfl⟩ := found
  exact ⟨rfl, rfl, .root classified reference⟩

theorem tableField_ok {d : Document} {table : String} {fields : List FieldDef} {f : FieldDef}
    {e : Derived} (known : (table, fields) ∈ d.tables) (accepted : d.tableField table f = .ok e) :
    Yields d (table, f) e := by
  obtain ⟨shape, classified, accepted⟩ := bind_ok accepted
  split at accepted
  · rename_i kind
    obtain rfl := Except.ok.inj accepted
    exact ⟨rfl, rfl, .column known classified kind⟩
  · rename_i kind
    obtain rfl := Except.ok.inj accepted
    exact ⟨rfl, rfl, .reference known classified (by simp [kind])⟩
  · rename_i kind
    obtain rfl := Except.ok.inj accepted
    exact ⟨rfl, rfl, .reference known classified (by simp [kind])⟩

theorem entryField_yields {d : Document} {entry : String} {fields : List FieldDef}
    (known : (entry, fields) ∈ d.entryObjects) {f : FieldDef} (inside : f ∈ fields) :
    Yields d (entry, f) (entryField entry f) := by
  refine ⟨rfl, rfl, ?_⟩
  change Serves d f entry (if f.name = valueField then _ else _)
  by_cases value : f.name = valueField
  · rw [if_pos value]
    exact .value known inside value
  · rw [if_neg value]
    exact .shown known inside value

theorem binding_ok {d : Document} {input : String} {f : InputDef} {b : Binding}
    (accepted : d.binding input f = .ok b) : Bound d f b := by
  unfold binding at accepted
  cases operations : operationsOf f with
  | nil => rw [operations] at accepted; cases accepted
  | cons one others =>
    cases others with
    | cons another rest => rw [operations] at accepted; cases accepted
    | nil =>
      obtain ⟨op, use⟩ := one
      simp only [operations, bind, Except.bind] at accepted
      split at accepted
      · rename_i table named
        split at accepted
        · cases accepted
        · rename_i known
          split at accepted
          · split at accepted
            · cases accepted
            · split at accepted
              · cases accepted
              · obtain rfl := Except.ok.inj accepted
                exact ⟨rfl, ⟨use, operations, named⟩, by simpa using known⟩
          · cases accepted
      · cases accepted

theorem mutationField_mutates {d : Document} {root : String} {f : FieldDef} {e : Derived}
    (accepted : d.mutationField root f = .ok e) :
    ∃ plan, e = (root, f.name, .mutation plan) ∧ Mutates d f plan := by
  unfold mutationField at accepted
  cases arguments : f.arguments with
  | nil => rw [arguments] at accepted; cases accepted
  | cons argument others =>
    cases others with
    | cons another rest => rw [arguments] at accepted; cases accepted
    | nil =>
      simp only [arguments, bind, Except.bind] at accepted
      split at accepted
      · rename_i fields declared
        split at accepted
        · cases accepted
        · rename_i single
          split at accepted
          · cases accepted
          · rename_i bindings collected
            split at accepted
            · cases accepted
            · rename_i nullable
              split at accepted
              · cases accepted
              · rename_i result shown
                obtain rfl := Except.ok.inj accepted
                refine ⟨_, rfl, ⟨?_, by simpa using nullable, shown⟩⟩
                refine ⟨argument, fields, arguments, rfl, by simpa using single, declared, ?_⟩
                exact (mapM_forall₂ collected).imp fun _ _ one => binding_ok one
      · cases accepted

theorem mutationField_ok {d : Document} {root : String} {f : FieldDef} {e : Derived}
    (named : d.mutation = some root) (accepted : d.mutationField root f = .ok e) :
    Yields d (root, f) e := by
  obtain ⟨plan, rfl, mutates⟩ := mutationField_mutates accepted
  exact ⟨rfl, rfl, .mutation named mutates⟩

theorem mem_owned {objects : List (String × List FieldDef)} {s : String × FieldDef} :
    s ∈ owned objects ↔ ∃ fields, (s.1, fields) ∈ objects ∧ s.2 ∈ fields := by
  obtain ⟨type, f⟩ := s
  simp only [owned, List.mem_flatMap, List.mem_map, Prod.mk.injEq]
  constructor
  · rintro ⟨⟨type', fields⟩, member, f', inside, rfl, rfl⟩
    exact ⟨fields, member, inside⟩
  · rintro ⟨fields, member, inside⟩
    exact ⟨_, member, f, inside, rfl, rfl⟩

theorem owned_append (left right : List (String × List FieldDef)) :
    owned (left ++ right) = owned left ++ owned right := List.flatMap_append

theorem owned_rootObject (d : Document) (root : String) :
    owned [d.rootObject root] = ((d.objectFields? root).getD []).map fun f => (root, f) := by
  simp [owned, rootObject]

theorem derive_served {d : Document} {derived : List Derived} (accepted : d.derive = .ok derived) :
    List.Forall₂ (Yields d) (owned d.served) derived := by
  obtain ⟨roots, rooted, accepted⟩ := bind_ok accepted
  obtain ⟨tables, tabled, accepted⟩ := bind_ok accepted
  obtain ⟨mutations, mutated, accepted⟩ := bind_ok accepted
  obtain rfl := Except.ok.inj accepted
  rw [served, owned_append, owned_append, owned_append]
  refine List.rel_append (List.rel_append (List.rel_append ?_ ?_) ?_) ?_
  · rw [owned_rootObject, List.forall₂_map_left_iff]
    exact (mapM_forall₂ rooted).imp fun _ _ one => rootField_ok one
  · have each := mapM_forall₂ tabled
    have inside : ∀ s ∈ owned d.tables, ∃ fields, (s.1, fields) ∈ d.tables := by
      intro s member
      obtain ⟨fields, known, _⟩ := mem_owned.mp member
      exact ⟨fields, known⟩
    refine ((List.forall₂_and_left _ _).mpr ⟨inside, each⟩).imp ?_
    rintro s e ⟨⟨fields, known⟩, one⟩
    exact tableField_ok known one
  · have inside : ∀ s ∈ owned d.entryObjects, Yields d s (entryField s.1 s.2) := by
      intro s member
      obtain ⟨fields, known, declared⟩ := mem_owned.mp member
      exact entryField_yields known declared
    have same : d.entryFields = (owned d.entryObjects).map fun s => entryField s.1 s.2 := by
      simp [entryFields, owned, List.map_flatMap, Function.comp_def]
    rw [same, List.forall₂_map_right_iff, List.forall₂_same]
    exact inside
  · unfold mutationFields at mutated
    cases named : d.mutation with
    | none =>
      rw [named] at mutated
      obtain rfl := Except.ok.inj mutated
      exact .nil
    | some root =>
      rw [named] at mutated
      rw [Option.toList_some, List.map_singleton, owned_rootObject, List.forall₂_map_left_iff]
      exact (mapM_forall₂ mutated).imp fun _ _ one => mutationField_ok named one

theorem last?_owned {objects : List (String × List FieldDef)} {type name : String}
    {s : String × FieldDef}
    (found : last? (fun s => s.1 = type && s.2.name = name) (owned objects) = some s) :
    ∃ fields, (type, fields) ∈ objects ∧ last? (fun f => f.name = name) fields = some s.2 := by
  induction objects with
  | nil => cases found
  | cons o rest ih =>
    rw [show owned (o :: rest) = o.2.map (fun f => (o.1, f)) ++ owned rest from rfl,
      last?_append] at found
    rcases Option.or_eq_some_iff.mp found with later | ⟨_, here⟩
    · obtain ⟨fields, member, last⟩ := ih later
      exact ⟨fields, List.mem_cons_of_mem _ member, last⟩
    · rw [last?_map] at here
      obtain ⟨f, last, rfl⟩ := Option.map_eq_some_iff.mp here
      obtain ⟨_, both⟩ := last?_some last
      obtain ⟨rfl, _⟩ : o.1 = type ∧ f.name = name := by simpa using both
      refine ⟨o.2, List.mem_cons_self, ?_⟩
      simpa using last

end RowGraph.Document
