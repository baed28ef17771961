import RowGraph.Execution.Overview
import RowGraph.Proofs.Mutation.Transaction
import RowGraph.Proofs.Schema.Built
/-!
The mutation fields of a schema. Main statement: a mutation field does with every input object, and
on every store that can come about, exactly what the rules of a transaction say of the items that
its declaration lists.
-/

namespace RowGraph

namespace Document

-- The plan of a field of the mutation root, as its last declaration has it.
structure Plans (d : Document) (type field : String) (plan : MutationPlan) : Prop where
  root : d.mutation = some type
  declared : ∃ t fields f, d.type? type = some t ∧ t.body = .object fields ∧
    last? (fun g => g.name = field) fields = some f ∧ Mutates d f plan

end Document

theorem Schema.Grounded.plans {s : Schema} (grounded : s.Grounded) {type field : String}
    {plan : MutationPlan} (resolves : FieldMap.get? s.resolvers type field = some (.mutation plan)) :
    s.document.Plans type field plan := by
  obtain ⟨t, fields, f, known, object, last, serves⟩ := grounded.serves resolves
  cases serves with
  | mutation root mutates => exact ⟨root, t, fields, f, known, object, last, mutates⟩

theorem mutation_atomic {s : Schema} (built : s.Built) {type field : String} {plan : MutationPlan}
    (resolves : FieldMap.get? s.resolvers type field = some (.mutation plan))
    {arguments : Arguments} {input : List (String × Datum)}
    (given : Members.get? plan.argument arguments = some (.object input)) {r : Run Memory}
    (reachable : r.store.Reachable) (room : r.store.version ≠ .last) :
    s.document.Plans type field plan ∧
      ∃ listed, Commit.Listed input plan.bindings listed ∧ ∀ answer m',
        Commit.Transaction plan listed r.store answer m' ↔
          (Commit.mutation Memory.backend plan arguments).run r = (answer, { r with store := m' }) := by
  refine ⟨built.grounded.plans resolves, _, Commit.listed_items input plan.bindings, ?_⟩
  intro answer m'
  exact Commit.transaction_iff given (Commit.listed_items _ _) reachable room

-- A shop whose only mutation changes, drops and adds books, in this order.
def shop : String :=
  Overview.ask "type Query" ["book(id: ID): Book"] ++
  Overview.ask "type Book" ["title: String"] ++
  Overview.ask "type Mutation" ["write(input: Write): ID"] ++
  Overview.ask "input Write" ["put: Put @update(table: \"Book\")",
    "drop: [Put] @delete(table: \"Book\")", "add: Put @create(table: \"Book\")"] ++
  Overview.ask "input Put" ["id: ID", "versionstamp: ID", "title: ID"]

def shopPlan : MutationPlan :=
  ⟨"input", [⟨"put", .update, "Book"⟩, ⟨"drop", .delete, "Book"⟩, ⟨"add", .create, "Book"⟩], .stamp⟩

def shopStore : Memory :=
  (Chronicle.run [.commit ⟨[], [.set ⟨"Book", ⟨"1"⟩⟩ (Row.ofColumns [])]⟩]).memory

-- The book is dropped under its stamp, and another one is added.
def shopInput : List (String × Datum) :=
  [("add", .object [("id", .string "2"), ("title", .string "Dune")]), ("put", .null),
    ("drop", .list [.object [("versionstamp", .string "00000000000000010000"), ("id", .string "1")]])]

theorem shop_atomic : ∃ s : Schema, s.Built ∧
    FieldMap.get? s.resolvers "Mutation" "write" = some (.mutation shopPlan) ∧
    Members.get? shopPlan.argument [("input", Datum.object shopInput)] = some (.object shopInput) ∧
    shopStore.Reachable ∧ shopStore.version ≠ .last ∧
    s.document.Plans "Mutation" "write" shopPlan ∧
      ∃ listed, Commit.Listed shopInput shopPlan.bindings listed ∧ ∀ answer m',
        Commit.Transaction shopPlan listed shopStore answer m' ↔
          (Commit.mutation Memory.backend shopPlan [("input", .object shopInput)]).run
            { store := shopStore } = (answer, { store := m' }) := by
  have served : ((Session.build {} shop []).toOption.bind fun s =>
      FieldMap.get? s.resolvers "Mutation" "write") = some (.mutation shopPlan) := by
    decide +kernel
  obtain ⟨s, made, resolves⟩ := Option.bind_eq_some_iff.mp served
  have built : s.Built := ⟨{}, shop, [], ok_of_toOption made⟩
  have given : Members.get? shopPlan.argument [("input", Datum.object shopInput)] =
      some (.object shopInput) := rfl
  have reachable : shopStore.Reachable := ⟨_, rfl⟩
  have room : shopStore.version ≠ .last := by decide
  exact ⟨s, built, resolves, given, reachable, room,
    mutation_atomic built resolves given (r := { store := shopStore }) reachable room⟩

end RowGraph
