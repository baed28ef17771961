import RowGraph.Proofs.Mutation.Queries
import RowGraph.Proofs.Mutation.Receipts
import RowGraph.Proofs.Reference.Root
import RowGraph.Proofs.Response.Walk
/-!
The fields of the root by themselves. Each of them could be the only one of a request of its own; the
answers to such requests, given one after another on what the ones before have left in the store, make
up the answer to all of them. Main statement: so they do if their keys are distinct, if none of them
can fail outside of its own position, and if none asks for a key of the root in the description.
-/

namespace RowGraph

variable {σ : Type}

-- What one field of the root adds to an answer.
structure Part extends Notes where
  members : List (String × Datum)

namespace Part

-- Errors that are stopped in the description of the schema come first.
def answer (p : Part) (store : σ) : Answer σ :=
  ⟨some ⟨.object p.members, p.caught ++ p.absorbed⟩, store, p.calls⟩

def union (parts : List Part) : Part where
  members := parts.flatMap Part.members
  absorbed := parts.flatMap fun p => p.absorbed
  caught := parts.flatMap fun p => p.caught
  calls := parts.flatMap fun p => p.calls

end Part

-- Operations that are executed one after another, each on the store that the one before has left.
inductive InTurn : σ → List (σ → Answer σ) → List Part → σ → Prop where
  | nil {store : σ} : InTurn store [] [] store
  | cons {serve : σ → Answer σ} {serves : List (σ → Answer σ)} {part : Part} {parts : List Part}
      {store store' store'' : σ} : serve store = part.answer store' →
      InTurn store' serves parts store'' → InTurn store (serve :: serves) (part :: parts) store''

namespace Execution

-- A field of the root that cannot fail outside of its own position. In the description of the schema
-- it asks for no keys that the root uses.
structure Contained (x : Execution σ) (root : TypeDef) (keys : List String) (l : Choice) : Prop where
  declared : ∀ f, x.entrance? root l.1.name = none → root.field? l.1.name = some f →
    f.type.nullable = true ∧ ∃ a, x.givenArguments l.1.arguments = .ok a
  described : ∀ f, x.entrance? root l.1.name = some f → f.type.nullable = true ∧
    (∀ r : Run σ, ∃ a, x.fittingArguments l.1 f.arguments r = (.ok a, r)) ∧
    ∀ l' ∈ Node.shown f.type.name l.2, l'.key ∉ keys

-- Some selections are executed at the root.
def perform (x : Execution σ) (root : TypeDef) (nodes : List Node) (store : σ) : Answer σ :=
  let (response, run) := x.run root nodes store
  ⟨some response, run.store, run.calls⟩

-- An operation that asks for one field of another one, and reads its arguments alike.
def Alone (x : Execution σ) (root : TypeDef) (l : Choice) (serve : σ → Answer σ) : Prop :=
  ∃ (y : Execution σ) (nodes : List Node), Kin x y l.node.arguments ∧
    Node.shown root.name nodes = [l] ∧ serve = y.perform root nodes

end Execution

-- The same as a request of its own.
def Request.Asks (x : Execution σ) (root : TypeDef) (kind : OperationKind) (l : Choice)
    (request : Request) : Prop :=
  ∃ m, request.prepare x.schema = .ok m ∧ m.operation.kind = kind ∧
    Node.shown root.name m.nodes = [l] ∧
    Kin x ⟨x.schema, x.backend, m.operation.variableDefs, request.values⟩ l.node.arguments

namespace Exec

theorem catching_nullable (body : Exec σ (Option Datum)) (r : Run σ) :
    ∃ d s, catching true body r = (.ok d, s) := by
  unfold catching
  rcases body r with ⟨_ | d, s⟩
  · exact ⟨none, _, rfl⟩
  · exact ⟨d, s, rfl⟩

end Exec

namespace Members

theorem set_fresh {α : Type} {name : String} {members : List (String × α)} (v : α)
    (fresh : name ∉ members.map Prod.fst) :
    get? name members = none ∧ set name v members = members ++ [(name, v)] := by
  induction members with
  | nil => exact ⟨rfl, rfl⟩
  | cons m rest ih =>
    rw [List.map_cons, List.mem_cons, not_or] at fresh
    obtain ⟨other, later⟩ := fresh
    obtain ⟨absent, last⟩ := ih later
    rw [get?_cons, set, if_neg (Ne.symm other), if_neg (Ne.symm other), last]
    exact ⟨absent, rfl⟩

end Members

namespace Datum

theorem addMembers_nodup {old new : List (String × Datum)}
    (distinct : ((old ++ new).map Prod.fst).Nodup) : addMembers old new = old ++ new := by
  induction new generalizing old with
  | nil =>
    rw [addMembers, List.append_nil]
  | cons m rest ih =>
    obtain ⟨name, v⟩ := m
    rw [List.map_append, List.map_cons] at distinct
    have fresh : name ∉ old.map Prod.fst := fun earlier =>
      (List.nodup_append.mp distinct).2.2 name earlier name List.mem_cons_self rfl
    obtain ⟨absent, last⟩ := Members.set_fresh v fresh
    rw [addMembers_cons, absent, Option.elim_none, last, ih (by simpa using distinct)]
    simp

-- Results whose keys are distinct are the members of an object as they are.
theorem ofResults_nodup {results : List (String × Datum)}
    (distinct : (results.map Prod.fst).Nodup) : ofResults results = .object results :=
  congrArg object (addMembers_nodup distinct)

end Datum

namespace Execution

variable {x : Execution σ} {root : TypeDef} {keys : List String} {l : Choice}

-- It always has a result, under its own key if it has one at all.
theorem Contained.gives (contained : x.Contained root keys l) (r : Run σ) :
    ∃ results s, x.selection root .root [] l.node r = (.ok results, s) ∧
      (results.map Prod.fst).Sublist [l.key] := by
  obtain ⟨head, children⟩ := l
  obtain ⟨declared, described⟩ := contained
  dsimp only at declared described
  unfold Choice.node
  rw [selection]
  dsimp only
  split
  · exact ⟨_, r, rfl, .refl _⟩
  · have shown {y : Exec σ (Option Datum)} (always : ∃ d s, y r = (.ok d, s)) :
        ∃ results s, (y >>= fun d => pure [(head.key, d.getD .null)]) r = (.ok results, s) ∧
          (results.map Prod.fst).Sublist [head.key] := by
      obtain ⟨d, s, ran⟩ := always
      rw [bind_apply, ran]
      exact ⟨_, s, rfl, .refl _⟩
    cases entered : x.entrance? root head.name with
    | some f =>
      obtain ⟨nullable, reads, _⟩ := described f entered
      obtain ⟨a, read⟩ := reads r
      apply shown
      unfold enterDescription
      simp only [bind_apply, read]
      cases Described.enter x.schema.catalog a f.name with
      | none => exact ⟨none, r, rfl⟩
      | some d =>
        rw [nullable]
        exact Exec.catching_nullable _ r
    | none =>
      cases known : root.field? head.name with
      | some f =>
        obtain ⟨nullable, a, given⟩ := declared f entered known
        apply shown
        unfold field arguments
        rw [given, nullable]
        exact Exec.guard_nullable _ _ r
      | none => exact ⟨[], r, rfl, List.nil_sublist _⟩

theorem run_ok {nodes : List Node} {store : σ} {results : List (String × Datum)} {r : Run σ}
    (ran : x.selections root .root [] nodes { store } = (.ok results, r)) :
    x.run root nodes store = (⟨Datum.ofResults results, r.caught ++ r.absorbed⟩, r) := by
  unfold run ExceptT.run
  rw [ran]

-- Nothing of the root is read where an earlier field could have left a mark.
theorem Contained.watched {l' : Choice} (contained : x.Contained root keys l') (used : l.key ∈ keys)
    (other : l.key ≠ l'.key) : l.key ∉ x.watched root l' := by
  unfold Execution.watched
  cases entered : x.entrance? root l'.1.name with
  | some f =>
    intro looked
    obtain ⟨asked, inside, same⟩ := List.mem_map.mp looked
    exact (contained.described f entered).2.2 asked inside (same ▸ used)
  | none =>
    intro looked
    exact other (List.mem_singleton.mp looked)

theorem undisturbed_of_contained (built : x.schema.Built)
    (known : x.schema.catalog.type? root.name = some root) {choices : List Choice}
    (distinct : (choices.map Choice.key).Nodup)
    (contained : ∀ l ∈ choices, x.Contained root (choices.map Choice.key) l) (store : σ) :
    x.Undisturbed root choices { store } := by
  refine Direct.undisturbed_of_apart built known .nothing (by simp) ?_
  have apart := List.pairwise_map.mp distinct
  refine apart.imp_of_mem fun {l l'} member member' other => ?_
  exact (contained l' member').watched (List.mem_map_of_mem member) other

theorem alone (x : Execution σ) (root : TypeDef) (l : Choice) :
    x.Alone root l (x.perform root [l.node]) :=
  ⟨x, [l.node], .refl x _, Node.shown_map root.name [l], rfl⟩

-- A field among others does what it does alone.
theorem Contained.alone {used : List String} (contained : x.Contained root used l)
    (built : x.schema.Built) (known : x.schema.catalog.type? root.name = some root) {r : Run σ}
    (left : Left keys r.marks)
    (free : ∀ key ∈ x.watched root l, ∀ i, markAt r.marks [.field key, .index i] = none) :
    ∃ (part : Part) (s : Run σ), x.selection root .root [] l.node r = (.ok part.members, s) ∧
      Noted part.toNotes r s ∧ (x.entrance? root l.1.name = none → part.caught = []) ∧
      Left (l.key :: keys) s.marks ∧ (part.members.map Prod.fst).Sublist [l.key] ∧
      ∀ serve, x.Alone root l serve → serve r.store = part.answer s.store := by
  let start : Run σ := { store := r.store }
  have store : start.store = r.store := rfl
  obtain ⟨results, s, ran, keys⟩ := contained.gives r
  obtain ⟨here, others⟩ := Direct.choice_mirrors built known (.refl x _) store rfl left free
  rw [ran] at here others
  obtain ⟨n, noted, _, caught⟩ := here.notes
  refine ⟨{ n with members := results }, s, ran, noted, fun aside => ?_, left.after others, keys, ?_⟩
  · exact caught.resolve_left (by simp [aside])
  rintro serve ⟨y, nodes, kin, single, rfl⟩
  -- Both are next to the same execution without marks.
  obtain ⟨here, _⟩ := Direct.choice_mirrors built known kin store rfl left free
  have there : Mirrored _ start start (y.selection root .root [] l.node start)
      (Direct.selection y root .root [] l.node start) :=
    (Direct.choice_mirrors (x := y) (kin.schema ▸ built) (kin.schema ▸ known) (.refl y _) rfl rfl
      .nothing fun _ _ _ => rfl).1
  rw [ran, there.same] at here
  rcases alone : y.selection root .root [] l.node start with ⟨result, t⟩
  rw [alone] at here
  obtain rfl : result = .ok results := here.result
  obtain ⟨n', same, noted', _⟩ := here.notes
  obtain rfl := same.unique noted
  have all : y.selections root .root [] nodes start = (.ok results, t) := by
    rw [(y.opens root .root []).nodes, single]
    exact Exec.inTurn_cons.mpr ⟨results, t, [], alone, rfl, List.append_nil _⟩
  have distinct : (results.map Prod.fst).Nodup := keys.nodup (List.nodup_singleton _)
  have absorbed : t.absorbed = n'.absorbed := noted'.absorbed
  have caught : t.caught = n'.caught := noted'.caught
  have calls : t.calls = n'.calls := noted'.calls
  have kept : t.store = s.store := here.store
  unfold perform
  rw [run_ok all, Datum.ofResults_nodup distinct]
  simp only [absorbed, caught, calls, kept]
  rfl

-- Fields that are taken one after another do what each of them does alone.
theorem inTurn_served (x : Execution σ) (built : x.schema.Built)
    (known : x.schema.catalog.type? root.name = some root) {choices : List Choice}
    {used : List String} (contained : ∀ l ∈ choices, x.Contained root used l) {r : Run σ}
    (left : Left keys r.marks) (undisturbed : x.Undisturbed root choices r) :
    ∃ (parts : List Part) (s : Run σ),
      Exec.inTurn (x.selection root .root [] ∘ Choice.node) choices r =
        (.ok (Part.union parts).members, s) ∧
      Noted (Part.union parts).toNotes r s ∧
      List.Forall₂ (fun l part => x.entrance? root l.1.name = none → part.caught = []) choices
        parts ∧
      ((Part.union parts).members.map Prod.fst).Sublist (choices.map Choice.key) ∧
      ∀ serves, List.Forall₂ (x.Alone root) choices serves → InTurn r.store serves parts s.store := by
  induction choices generalizing keys r with
  | nil =>
    refine ⟨[], r, rfl, .refl r, .nil, .refl _, fun serves none => ?_⟩
    cases none
    exact .nil
  | cons l choices ih =>
    obtain ⟨part, s, ran, noted, aside, left, own, answers⟩ :=
      (contained l List.mem_cons_self).alone built known left undisturbed.head
    obtain ⟨parts, t, taken, later, asides, keys, served⟩ := ih
      (fun l member => contained l (List.mem_cons_of_mem _ member)) left (undisturbed.tail ran)
    refine ⟨part :: parts, t, ?_, noted.trans later, .cons aside asides, ?_, fun serves each => ?_⟩
    · exact Exec.inTurn_cons.mpr ⟨_, s, _, ran, taken, rfl⟩
    · simpa [Part.union] using own.append keys
    · cases each with
      | cons first rest => exact .cons (answers _ first) (served _ rest)

end Execution

variable {s : Schema} {request : Request} {m : Request.Measured} {root : TypeDef}

theorem Request.Asks.alone {x : Execution σ} {kind : OperationKind} {l : Choice} {single : Request}
    (asks : single.Asks x root kind l)
    (rooted : (x.schema.catalog.root? kind).bind x.schema.catalog.type? = some root) :
    x.Alone root l (x.schema.execute x.backend single) := by
  obtain ⟨m, prepared, rfl, shown, kin⟩ := asks
  refine ⟨_, m.nodes, kin, shown, ?_⟩
  funext store
  unfold Schema.execute
  rw [prepared]
  simp only [rooted]
  rfl

-- Every mutation field may be null.
theorem Schema.Built.mutation_nullable (built : s.Built)
    (rooted : (s.catalog.root? .mutation).bind s.catalog.type? = some root) {field : String}
    {f : FieldDef} (declared : root.field? field = some f) : f.type.nullable = true := by
  obtain ⟨name, mutation, known⟩ := Option.bind_eq_some_iff.mp rooted
  have named : s.document.mutation = some name := by
    rw [built.grounded.catalog] at mutation
    exact mutation
  obtain ⟨source, _, parsed, _⟩ := built.finished
  obtain ⟨fields, object⟩ :=
    Option.isSome_iff_exists.mp ((Document.read_roots parsed).2 name named)
  obtain ⟨t, found, body⟩ := Option.bind_eq_some_iff.mp object
  obtain rfl : t.distinct = root := Option.some.inj ((built.grounded.type? found).symm.trans known)
  have object' : t.body = .object fields := by
    unfold TypeDef.objectFields? at body
    split at body
    · rename_i fields' same
      rw [same, Option.some.inj body]
    · cases body
  rw [TypeDef.field?_distinct object'] at declared
  obtain ⟨f', last, rfl⟩ := Option.map_eq_some_iff.mp declared
  obtain ⟨derived, accepted, _⟩ := built.grounded.derived
  obtain ⟨_, _, accepted⟩ := Document.bind_ok accepted
  obtain ⟨_, _, accepted⟩ := Document.bind_ok accepted
  obtain ⟨mutations, mutated, _⟩ := Document.bind_ok accepted
  unfold Document.mutationFields at mutated
  rw [named] at mutated
  simp only [object, Option.getD_some] at mutated
  obtain ⟨e, made⟩ := Document.mapM_ok mutated (last?_some last).1
  obtain ⟨plan, _, mutates⟩ := Document.mutationField_mutates made
  have nonNull := mutates.nullable
  change (!f'.type.nonNull) = true
  rw [nonNull]
  rfl

theorem root_fields_compose (built : s.Built) (b : Backend σ) (prepared : request.prepare s = .ok m)
    (rooted : (s.catalog.root? m.operation.kind).bind s.catalog.type? = some root)
    (distinct : ((Node.shown root.name m.nodes).map Choice.key).Nodup)
    (contained : ∀ l ∈ Node.shown root.name m.nodes,
      (⟨s, b, m.operation.variableDefs, request.values⟩ : Execution σ).Contained root
        ((Node.shown root.name m.nodes).map Choice.key) l) (store : σ) :
    let x : Execution σ := ⟨s, b, m.operation.variableDefs, request.values⟩
    ∃ (parts : List Part) (store' : σ),
      s.execute b request store = (Part.union parts).answer store' ∧
      InTurn store ((Node.shown root.name m.nodes).map fun l => x.perform root [l.node]) parts store' ∧
      (∀ singles, List.Forall₂ (Request.Asks x root m.operation.kind) (Node.shown root.name m.nodes)
        singles → InTurn store (singles.map (s.execute b)) parts store') ∧
      List.Forall₂ (fun l part => x.entrance? root l.1.name = none → part.caught = [])
        (Node.shown root.name m.nodes) parts ∧
      (m.operation.kind = .mutation →
        ∀ field f, root.field? field = some f → f.type.nullable = true) := by
  intro x
  obtain ⟨name, _, found⟩ := Option.bind_eq_some_iff.mp rooted
  have known := Catalog.type?_name found
  obtain ⟨parts, r, ran, noted, asides, keys, served⟩ :=
    x.inTurn_served built known contained .nothing
      (Execution.undisturbed_of_contained built known distinct contained store)
  rw [← (x.opens root .root []).nodes] at ran
  refine ⟨parts, r.store, ?_, ?_, fun singles each => ?_, asides, fun kind field f declared => ?_⟩
  · obtain ⟨store', marks, absorbed, caught, calls⟩ := r
    obtain ⟨rfl, rfl, rfl⟩ : absorbed = _ ∧ caught = _ ∧ calls = _ :=
      ⟨noted.absorbed, noted.caught, noted.calls⟩
    unfold Schema.execute
    rw [prepared]
    simp only [rooted]
    rw [Execution.run_ok ran, Datum.ofResults_nodup (keys.nodup distinct)]
    rfl
  · apply served
    rw [List.forall₂_map_right_iff, List.forall₂_same]
    exact fun l _ => x.alone root l
  · apply served
    rw [List.forall₂_map_right_iff]
    exact each.imp fun l single asks => asks.alone rooted
  · rw [kind] at rooted
    exact built.mutation_nullable rooted declared

-- A book is added, then added once more, which is rejected, and then another one is added.
def threeWrites : Request :=
  { source := Overview.ask "mutation"
      [Overview.ask "a: write(input: \x7badd: \x7bid: 1\x7d\x7d)" ["versionstamp"],
        Overview.ask "b: write(input: \x7badd: \x7bid: 1\x7d\x7d)" ["versionstamp"],
        Overview.ask "c: write(input: \x7badd: \x7bid: 2\x7d\x7d)" ["versionstamp"]] }

theorem three_writes_compose : ∃ (s : Schema) (m : Request.Measured) (root : TypeDef)
    (parts : List Part) (store : Memory), s.Built ∧ threeWrites.prepare s = .ok m ∧
    (s.catalog.root? m.operation.kind).bind s.catalog.type? = some root ∧
    let x : Execution Memory := ⟨s, Memory.backend, m.operation.variableDefs, threeWrites.values⟩
    s.execute Memory.backend threeWrites Memory.empty = (Part.union parts).answer store ∧
    InTurn Memory.empty ((Node.shown root.name m.nodes).map fun l => x.perform root [l.node]) parts
      store ∧
    (s.execute Memory.backend threeWrites Memory.empty).response.map (fun r =>
      ["a", "b", "c"].map fun key => (r.data.at? [.field key]).map Datum.isNull) =
        some [some false, some true, some false] := by
  have ready : (Session.build {} receiptShop []).toOption.any (fun s =>
      (threeWrites.prepare s).toOption.any fun (m : Request.Measured) =>
      ((s.catalog.root? m.operation.kind).bind s.catalog.type?).any fun (root : TypeDef) =>
      let x : Execution Memory := ⟨s, Memory.backend, m.operation.variableDefs, threeWrites.values⟩
      decide (
        ((Node.shown root.name m.nodes).map Choice.key).Nodup ∧
        (∀ l ∈ Node.shown root.name m.nodes, (x.entrance? root l.1.name).isNone = true ∧
          (root.field? l.1.name).all (fun f => f.type.nullable) = true ∧
          (x.givenArguments l.1.arguments).toOption.isSome = true) ∧
        (s.execute Memory.backend threeWrites Memory.empty).response.map (fun r =>
          ["a", "b", "c"].map fun key => (r.data.at? [.field key]).map Datum.isNull) =
            some [some false, some true, some false])) = true := by
    decide +kernel
  obtain ⟨s, made, ready⟩ := (Option.any_eq_true _ _).mp ready
  obtain ⟨m, prepared, ready⟩ := (Option.any_eq_true _ _).mp ready
  obtain ⟨root, rooted, ready⟩ := (Option.any_eq_true _ _).mp ready
  obtain ⟨distinct, each, shown⟩ := of_decide_eq_true ready
  have built : s.Built := ⟨{}, receiptShop, [], ok_of_toOption made⟩
  have prepared := ok_of_toOption prepared
  let x : Execution Memory := ⟨s, Memory.backend, m.operation.variableDefs, threeWrites.values⟩
  have contained (l : Choice) (member : l ∈ Node.shown root.name m.nodes) :
      x.Contained root ((Node.shown root.name m.nodes).map Choice.key) l := by
    obtain ⟨aside, nullable, reads⟩ := each l member
    obtain ⟨a, read⟩ := Option.isSome_iff_exists.mp reads
    refine ⟨fun f _ declared => ⟨?_, a, ok_of_toOption read⟩, fun f entered => ?_⟩
    · rw [declared] at nullable
      exact nullable
    · rw [entered] at aside
      cases aside
  obtain ⟨parts, store, answered, alone, _⟩ :=
    root_fields_compose built Memory.backend prepared rooted distinct contained Memory.empty
  exact ⟨s, m, root, parts, store, built, prepared, rooted, answered, alone, shown⟩

-- The same with a variable that has no value in the place of the second book.
def unsetWrite : Request :=
  { source := Overview.ask "mutation ($x: Write!)"
      [Overview.ask "a: write(input: \x7badd: \x7bid: 1\x7d\x7d)" ["versionstamp"],
        Overview.ask "b: write(input: $x)" ["versionstamp"],
        Overview.ask "c: write(input: \x7badd: \x7bid: 2\x7d\x7d)" ["versionstamp"]] }

-- It fails outside of its position. Alone the last field adds a book, and among the others it does not.
theorem unset_write_interferes : ∃ (s : Schema) (m : Request.Measured) (root : TypeDef), s.Built ∧
    unsetWrite.prepare s = .ok m ∧
    (s.catalog.root? m.operation.kind).bind s.catalog.type? = some root ∧
    ((Node.shown root.name m.nodes).map Choice.key).Nodup ∧
    (∀ l ∈ Node.shown root.name m.nodes,
      (root.field? l.1.name).any (fun f => f.type.nullable) = true) ∧
    let x : Execution Memory := ⟨s, Memory.backend, m.operation.variableDefs, unsetWrite.values⟩
    (s.execute Memory.backend unsetWrite Memory.empty).store ≠
      (Node.shown root.name m.nodes).foldl (fun store l => (x.perform root [l.node] store).store)
        Memory.empty := by
  have ready : (Session.build {} receiptShop []).toOption.any (fun s =>
      (unsetWrite.prepare s).toOption.any fun (m : Request.Measured) =>
      ((s.catalog.root? m.operation.kind).bind s.catalog.type?).any fun (root : TypeDef) =>
      let x : Execution Memory := ⟨s, Memory.backend, m.operation.variableDefs, unsetWrite.values⟩
      decide (
        ((Node.shown root.name m.nodes).map Choice.key).Nodup ∧
        (∀ l ∈ Node.shown root.name m.nodes,
          (root.field? l.1.name).any (fun f => f.type.nullable) = true) ∧
        (s.execute Memory.backend unsetWrite Memory.empty).store.version = .ofCounter 1 ∧
        ((Node.shown root.name m.nodes).foldl (fun store l => (x.perform root [l.node] store).store)
          Memory.empty).version = .ofCounter 2)) = true := by
    decide +kernel
  obtain ⟨s, made, ready⟩ := (Option.any_eq_true _ _).mp ready
  obtain ⟨m, prepared, ready⟩ := (Option.any_eq_true _ _).mp ready
  obtain ⟨root, rooted, ready⟩ := (Option.any_eq_true _ _).mp ready
  obtain ⟨distinct, nullable, once, twice⟩ := of_decide_eq_true ready
  refine ⟨s, m, root, ⟨{}, receiptShop, [], ok_of_toOption made⟩, ok_of_toOption prepared, rooted,
    distinct, nullable, fun same => ?_⟩
  have version := (once.symm.trans (congrArg Memory.version same)).trans twice
  exact absurd version (by decide)

-- Errors that are stopped in the description come before those of fields that were asked for earlier.
example : ((Session.build {} shelf []).toOption.bind fun s =>
    (s.execute Memory.backend
      { source := Overview.ask "query ($x: Boolean)" [Overview.ask "a: book(id: 1)" ["title"],
          Overview.ask "b: __type(name: \"Query\")"
            [Overview.ask "fields" [Overview.ask "args(includeDeprecated: $x)" ["name"]]]] }
      shelfStore).response.map fun r => r.errors.map (·.path)) =
    some [[.field "fields", .index 0], [.field "a", .field "title"]] := by
  decide +kernel

end RowGraph
