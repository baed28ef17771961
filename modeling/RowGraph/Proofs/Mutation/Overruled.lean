import RowGraph.Proofs.Mutation.Counted
import RowGraph.Proofs.Mutation.Standing
import RowGraph.Proofs.Schema.Pieces
/-!
Items of one commit that name the same row. All of them are checked against the store before the
commit, so that they may go through together when they expect the same of it, and are then written
one after another. Main statement: after a commit the last item of each row stands in the store, and
another one only if it leaves the same there.
-/

namespace RowGraph

namespace Commit

-- The row that an item is about.
def names? (i : Binding × Datum) : Option Key :=
  (i.2.asObject?.bind named?).map (Key.mk i.1.table)

-- The row that an item leaves: its own columns, unless it deletes.
def leaves? (i : Binding × Datum) : Option Row :=
  if i.1.op = .delete then none
  else i.2.asObject?.bind fun item => (Value.ofDatumMembers (columns item)).toOption.map Row.ofColumns

-- What an item has asked for is what there is, under this stamp.
def Stands (m : Memory) (stamp : Versionstamp) (i : Binding × Datum) : Prop :=
  ∃ key, names? i = some key ∧ m.get? key = (leaves? i).map fun row => ⟨key, row, stamp⟩

variable {b : Binding} {i j : Binding × Datum} {w v : Demand} {m m' : Memory}
  {stamp : Versionstamp}

theorem Asks.names (asks : Asks i.1 i.2 w) : names? i = some w.key := by
  obtain ⟨item, rid, object, named, key⟩ := asks.key
  rw [names?, object, key]
  simp only [Datum.asObject?, Option.bind_some, named, Option.map_some]

theorem Asks.left (asks : Asks i.1 i.2 w) : leaves? i = w.left? := by
  obtain ⟨b, d⟩ := i
  cases asks with
  | create kind _ stored | update kind _ _ _ stored =>
    replace kind : b.op = _ := kind
    rw [leaves?, if_neg (by simp [kind])]
    simp only [Datum.asObject?, Option.bind_some, stored]
    rfl
  | delete kind _ _ _ => exact if_pos kind

theorem Asks.stands_iff (asks : Asks i.1 i.2 w) : Stands m stamp i ↔
    m.rows.get? w.key = w.left?.map fun row => (row, stamp) := by
  unfold Stands
  simp only [asks.names, asks.left, Option.some.injEq, exists_eq_left', Memory.get?]
  cases m.rows.get? w.key <;> cases w.left? <;> simp [Prod.ext_iff]

-- What a commit makes of its items.
structure Settled (listed : List (Binding × Datum)) (stamp : Versionstamp) (m m' : Memory) : Prop where
  version : m'.version = stamp
  -- What was there before is what every item has expected.
  expected : ∀ i ∈ listed, ∃ w, Asks i.1 i.2 w ∧ m.stamp? w.key = w.expected
  last : ∀ before j after, listed = before ++ j :: after → (∀ k ∈ after, names? k ≠ names? j) →
    Stands m' stamp j
  overruled : ∀ before j after, listed = before ++ j :: after →
    (∀ k ∈ after, names? k ≠ names? j) → ∀ i ∈ before, names? i = names? j →
    (Stands m' stamp i ↔ leaves? i = leaves? j)

theorem Written.last_item {listed before after : List (Binding × Datum)} {ws : List Demand}
    (written : Written ws stamp m m') (asks : AllAsk listed ws)
    (split : listed = before ++ j :: after) (quiet : ∀ k ∈ after, names? k ≠ names? j) :
    ∃ w, Asks j.1 j.2 w ∧ m'.rows.get? w.key = w.left?.map fun row => (row, stamp) := by
  subst split
  obtain ⟨first, rest, rfl, _, remaining⟩ := asks.split
  cases remaining with
  | @cons _ w _ ws' own others =>
    refine ⟨w, own, written.last first w ws' rfl fun later member same => ?_⟩
    obtain ⟨k, inside, asked⟩ := mem_of_forall₂ others.flip member
    refine quiet k inside ?_
    rw [asked.names, own.names, same]

theorem settled_of_commit {listed : List (Binding × Datum)} {ws : List Demand}
    (asks : AllAsk listed ws) (committed : m.commit (ws.foldl ask {}) = (.ok (some stamp), m')) :
    Settled listed stamp m m' := by
  obtain ⟨holds, _, version, _⟩ := Memory.commit_ok committed
  have written := written_of_commit committed
  refine ⟨version, fun i member => ?_, fun before j after split quiet => ?_, ?_⟩
  · obtain ⟨w, inside, own⟩ := mem_of_forall₂ asks member
    exact ⟨w, own, (holds_foldl_ask ws m).mp holds w inside⟩
  · obtain ⟨w, own, found⟩ := written.last_item asks split quiet
    exact own.stands_iff.mpr found
  · intro before j after split quiet i member same
    obtain ⟨w, own, found⟩ := written.last_item asks split quiet
    obtain ⟨v, _, other⟩ := mem_of_forall₂ asks (a := i) (by simp [split, member])
    have row : v.key = w.key := by
      rw [other.names, own.names] at same
      exact Option.some.inj same
    have injective : Function.Injective fun row : Row => (row, stamp) :=
      fun _ _ equal => congrArg Prod.fst equal
    rw [other.stands_iff, other.left, own.left, row, found, eq_comm]
    exact (Option.map_injective injective).eq_iff

end Commit

theorem Execution.declaredField_settles {x : Execution Memory} (memory : x.backend = Memory.backend)
    {type field : String} {plan : MutationPlan}
    (resolves : FieldMap.get? x.schema.resolvers type field = some (.mutation plan)) {here : Path}
    {loc : Location} {arguments : Arguments} {parent : Outcome} {r r' : Run Memory} {o : Outcome}
    (committed : x.declaredField type field here loc arguments parent r = (.ok (some o), r')) :
    ∃ listed stamp, x.schema.Submits ⟨type, field, parent, arguments⟩ plan listed ∧
      o = Commit.result plan stamp ∧ Commit.Settled listed stamp r.store r'.store := by
  have declared := x.declaredField_declared type field here loc arguments parent r
  generalize answer : Except.ok (some o) = shown at committed
  rw [committed] at declared
  cases declared with
  | refused => cases answer
  | unserved => cases answer
  | @resolved r₁ _ resolver result free served steady ran _ =>
    obtain rfl := Option.some.inj (served.symm.trans resolves)
    have untouched : r₁.store = r.store := Memory.commitAll_of_sends (memory ▸ steady.store)
    have made : result = .ok (some o) := by
      cases result with
      | error e => cases answer
      | ok shown => exact congrArg _ (Except.ok.inj answer).symm
    subst made
    have ran : (Commit.mutation Memory.backend plan arguments).run r₁ = (.ok (some o), r') := by
      rw [← memory]
      exact ran
    cases given : (Members.get? plan.argument arguments).bind Datum.asObject? with
    | none => cases ran.symm.trans (Commit.mutation_objectless Memory.backend given r₁)
    | some input =>
      have given := Commit.object_given.mp given
      have lists := Commit.listed_items input plan.bindings
      obtain ⟨ws, stamp, asks, shown, sent⟩ := Commit.commit_of_stamped given lists ran
      exact ⟨_, stamp, ⟨free, served, input, given, lists⟩, shown,
        untouched ▸ Commit.settled_of_commit asks sent⟩

theorem committed_items_stand {s : Schema} (built : s.Built) {type field : String}
    {plan : MutationPlan} (resolves : FieldMap.get? s.resolvers type field = some (.mutation plan))
    {x : Execution Memory} (own : x.schema = s) (memory : x.backend = Memory.backend) {here : Path}
    {loc : Location} {arguments : Arguments} {parent : Outcome} {r r' : Run Memory} {o : Outcome}
    (committed : x.declaredField type field here loc arguments parent r = (.ok (some o), r')) :
    s.document.Plans type field plan ∧ ∃ listed stamp,
      s.Submits ⟨type, field, parent, arguments⟩ plan listed ∧ o = Commit.result plan stamp ∧
      Commit.Settled listed stamp r.store r'.store := by
  subst own
  exact ⟨built.grounded.plans resolves, x.declaredField_settles memory resolves committed⟩

def shopWrite (s : Schema) (input : List (String × Datum)) :
    Except ResponseError (Option Outcome) × Run Memory :=
  (⟨s, Memory.backend, [], []⟩ : Execution Memory).declaredField "Mutation" "write" [] ⟨1, 1⟩
    [("input", .object input)] (.row []) { store := shopStore }

theorem answer_of_isSome {ran : Except ResponseError (Option Outcome) × Run Memory}
    (answered : ran.1.toOption.join.isSome = true) : ∃ o r', ran = (.ok (some o), r') := by
  obtain ⟨e | _ | o, r'⟩ := ran
  · cases answered
  · cases answered
  · exact ⟨o, r', rfl⟩

theorem shop_items_stand : ∃ s : Schema, s.Built ∧
    FieldMap.get? s.resolvers "Mutation" "write" = some (.mutation shopPlan) ∧
    ∃ o r', shopWrite s shopInput = (.ok (some o), r') ∧
      s.document.Plans "Mutation" "write" shopPlan ∧ ∃ listed stamp,
      s.Submits ⟨"Mutation", "write", .row [], [("input", .object shopInput)]⟩ shopPlan listed ∧
      o = Commit.result shopPlan stamp ∧ Commit.Settled listed stamp shopStore r'.store := by
  have served : ((Session.build {} shop []).toOption.bind fun s =>
      (FieldMap.get? s.resolvers "Mutation" "write").map fun resolver =>
        (resolver, (shopWrite s shopInput).1.toOption.join.isSome)) =
      some (.mutation shopPlan, true) := by
    rw [Session.build_toList]
    simp only [shop, String.toList_append, Overview.toList_ask]
    decide +kernel
  obtain ⟨s, made, served⟩ := Option.bind_eq_some_iff.mp served
  obtain ⟨resolver, resolves, same⟩ := Option.map_eq_some_iff.mp served
  obtain ⟨rfl, answered⟩ := Prod.mk.inj same
  have built : s.Built := ⟨{}, shop, [], ok_of_toOption made⟩
  obtain ⟨o, r', committed⟩ := answer_of_isSome answered
  exact ⟨s, built, resolves, o, r', committed, committed_items_stand built resolves rfl rfl committed⟩

-- A book is changed and then dropped, both under the stamp that it has.
def rivalInput : List (String × Datum) :=
  [("put", .object [("id", .int 1), ("versionstamp", .string "00000000000000010000"),
      ("title", .string "Emma")]),
    ("drop", .list [.object [("id", .string "1"), ("versionstamp", .string "00000000000000010000")]])]

theorem update_overruled : ∃ s : Schema, s.Built ∧
    FieldMap.get? s.resolvers "Mutation" "write" = some (.mutation shopPlan) ∧
    shopStore.Reachable ∧ ∃ o r', shopWrite s rivalInput = (.ok (some o), r') ∧ ∃ listed stamp,
      s.Submits ⟨"Mutation", "write", .row [], [("input", .object rivalInput)]⟩ shopPlan listed ∧
      o = Commit.result shopPlan stamp ∧ ∃ i ∈ listed, i.1.op = .update ∧
        ¬ Commit.Stands r'.store stamp i := by
  have served : ((Session.build {} shop []).toOption.bind fun s =>
      (FieldMap.get? s.resolvers "Mutation" "write").map fun resolver =>
        (resolver, (shopWrite s rivalInput).1.toOption.join.isSome,
          ((shopWrite s rivalInput).2.store.get? ⟨"Book", ⟨"1"⟩⟩).isSome)) =
      some (.mutation shopPlan, true, false) := by
    rw [Session.build_toList]
    simp only [shop, String.toList_append, Overview.toList_ask]
    decide +kernel
  obtain ⟨s, made, served⟩ := Option.bind_eq_some_iff.mp served
  obtain ⟨resolver, resolves, same⟩ := Option.map_eq_some_iff.mp served
  obtain ⟨rfl, answers⟩ := Prod.mk.inj same
  obtain ⟨answered, gone⟩ := Prod.mk.inj answers
  have built : s.Built := ⟨{}, shop, [], ok_of_toOption made⟩
  obtain ⟨o, r', committed⟩ := answer_of_isSome answered
  obtain ⟨listed, stamp, submits, shown, _⟩ :=
    Execution.declaredField_settles (x := ⟨s, Memory.backend, [], []⟩) rfl resolves committed
  let change : Binding × Datum := (⟨"put", .update, "Book"⟩, .object
    [("id", .int 1), ("versionstamp", .string "00000000000000010000"), ("title", .string "Emma")])
  have inside : change ∈ listed := by
    obtain ⟨input, given, lists⟩ := submits.given
    obtain rfl : rivalInput = input := by cases given; rfl
    rw [lists.eq_items]
    exact List.mem_cons_self
  refine ⟨s, built, resolves, ⟨_, rfl⟩, o, r', committed, listed, stamp, submits, shown, change,
    inside, rfl, ?_⟩
  rintro ⟨key, named, stands⟩
  obtain rfl : key = ⟨"Book", ⟨"1"⟩⟩ := Option.some.inj (named.symm.trans (by decide +kernel))
  have left : (Commit.leaves? change).isSome = true := by decide +kernel
  rw [committed] at gone
  simp only [stands, Option.isSome_map, left] at gone
  cases gone

end RowGraph
