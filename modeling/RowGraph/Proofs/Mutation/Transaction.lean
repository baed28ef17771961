import RowGraph.Execution.Run
import RowGraph.Proofs.Mutation.Items
import RowGraph.Proofs.Store.Chronicle
/-!
A mutation is one transaction. The rules say what becomes of the items of a request without the
operation that is collected from them; main statement: on every store that can come about, what a
mutation answers and leaves is what the rules say, and nothing else.
-/

namespace RowGraph

namespace Commit

variable {σ : Type}

-- The items of a request: field after field in the order of the bindings, and in list order within
-- a field. No value is no item, and a value that is no list is one.
inductive Listed (input : List (String × Datum)) : List Binding → List (Binding × Datum) → Prop where
  | done : Listed input [] []
  | skipped : (Members.get? b.field input = none ∨ Members.get? b.field input = some .null) →
      Listed input rest listed → Listed input (b :: rest) listed
  | one {b : Binding} {d : Datum} : Members.get? b.field input = some d → d ≠ .null → (∀ ds, d ≠ .list ds) →
      Listed input rest listed → Listed input (b :: rest) ((b, d) :: listed)
  | several : Members.get? b.field input = some (.list ds) →
      Listed input rest listed → Listed input (b :: rest) (ds.map (fun d => (b, d)) ++ listed)

theorem Listed.eq_items {input : List (String × Datum)} {bindings : List Binding}
    {listed : List (Binding × Datum)} (lists : Listed input bindings listed) :
    listed = items bindings input := by
  induction lists with
  | done => rfl
  | skipped absent _ ih =>
    rcases absent with none | null
    · simp [items, itemsOf, none, ih]
    · simp [items, itemsOf, null, ih]
  | @one _ _ b d given present single _ ih =>
    have own : itemsOf input b = [d] := by
      unfold itemsOf
      rw [given]
      cases d with
      | null => exact absurd rfl present
      | list ds => exact absurd rfl (single ds)
      | _ => rfl
    simp [items, own, ih]
  | several given _ ih => simp [items, itemsOf, given, ih]

theorem listed_items (input : List (String × Datum)) (bindings : List Binding) :
    Listed input bindings (items bindings input) := by
  induction bindings with
  | nil => exact .done
  | cons b rest ih =>
    rw [show items (b :: rest) input =
      (itemsOf input b).map (fun d => (b, d)) ++ items rest input from rfl]
    unfold itemsOf
    cases given : Members.get? b.field input with
    | none => exact .skipped (.inl given) ih
    | some d =>
      cases d with
      | null => exact .skipped (.inr given) ih
      | list ds => exact .several given ih
      | _ => exact .one given (by simp) (by simp) ih

-- Writes to several keys, with a new stamp. Of those to one key the last counts.
structure Written (ws : List Demand) (stamp : Versionstamp) (m m' : Memory) : Prop where
  kept : ∀ key, (∀ w ∈ ws, w.key ≠ key) → m'.rows.get? key = m.rows.get? key
  last : ∀ before w after, ws = before ++ w :: after → (∀ later ∈ after, later.key ≠ w.key) →
    m'.rows.get? w.key = w.left?.map fun row => (row, stamp)

theorem unwritten_or_last (ws : List Demand) (key : Key) :
    (∀ w ∈ ws, w.key ≠ key) ∨ ∃ before w after, ws = before ++ w :: after ∧ w.key = key ∧
      ∀ later ∈ after, later.key ≠ w.key := by
  induction ws using List.reverseRecOn with
  | nil => simp
  | append_singleton ws w ih =>
    by_cases here : w.key = key
    · exact .inr ⟨ws, w, [], rfl, here, by simp⟩
    · obtain none | ⟨before, last, after, rfl, rfl, quiet⟩ := ih
      · refine .inl fun other member => ?_
        rcases List.mem_append.mp member with old | new
        · exact none other old
        · exact List.mem_singleton.mp new ▸ here
      · refine .inr ⟨before, last, after ++ [w], by simp, rfl, fun later member => ?_⟩
        rcases List.mem_append.mp member with old | new
        · exact quiet later old
        · exact List.mem_singleton.mp new ▸ here

theorem Written.unique {ws : List Demand} {stamp : Versionstamp} {m m' m'' : Memory}
    (left : Written ws stamp m m') (right : Written ws stamp m m'') : m'.rows = m''.rows := by
  refine OrderedMap.ext_get? fun key => ?_
  obtain none | ⟨before, w, after, split, rfl, quiet⟩ := unwritten_or_last ws key
  · rw [left.kept key none, right.kept key none]
  · rw [left.last before w after split quiet, right.last before w after split quiet]

theorem last?_writes {before after : List Demand} {w : Demand}
    (quiet : ∀ later ∈ after, later.key ≠ w.key) :
    Mutation.last? w.key ((before ++ w :: after).map Demand.write) = some w.left? := by
  have last : ∀ later ∈ after.map Demand.write, later.key ≠ w.write.key := by
    intro later member
    obtain ⟨asked, found, rfl⟩ := List.mem_map.mp member
    rw [Demand.write_key, Demand.write_key]
    exact quiet asked found
  rw [List.map_append, List.map_cons, ← Demand.write_left, ← Demand.write_key]
  exact Mutation.last?_split last

theorem written_of_settle {ws : List Demand} {stamp : Versionstamp} {m m' : Memory}
    (rows : ∀ key, m'.rows.get? key =
      settle stamp (m.rows.get? key) (Mutation.last? key (ws.map Demand.write))) :
    Written ws stamp m m' where
  kept key none := by
    rw [rows, Mutation.last?_eq_none_iff.mpr]
    · rfl
    · intro w member
      obtain ⟨asked, found, rfl⟩ := List.mem_map.mp member
      rw [Demand.write_key]
      exact none asked found
  last before w after split quiet := by rw [rows, split, last?_writes quiet, settle]

-- What becomes of the listed items: what is answered, and the store afterwards.
inductive Transaction (plan : MutationPlan) (listed : List (Binding × Datum)) (m : Memory) :
    Except GraphError (Option Outcome) → Memory → Prop where
  | malformed : FirstFlaw listed p → Transaction plan listed m (.error p.error) m
  | empty : listed = [] → Transaction plan listed m (.ok none) m
  | rejected {ws : List Demand} : AllAsk listed ws → (∃ w ∈ ws, m.stamp? w.key ≠ w.expected) →
      Transaction plan listed m (.ok none) m
  | committed {ws : List Demand} {n n' : UInt64} {m' : Memory} : AllAsk listed ws → ws ≠ [] → (∀ w ∈ ws, m.stamp? w.key = w.expected) →
      m.version = .ofCounter n → n'.toNat = n.toNat + 1 → m'.version = .ofCounter n' →
      Written ws m'.version m m' → Transaction plan listed m (.ok (some (result plan m'.version))) m'

def answered (plan : MutationPlan) (r : Run σ) :
    Except StoreError (Option Versionstamp) × σ → Except GraphError (Option Outcome) × Run σ
  | (.ok stamp, s) => (.ok (stamp.map (result plan)), { r with store := s })
  | (.error e, s) => (.error (.store e), { r with store := s })

-- What a mutation does with an object, whatever the store is.
theorem mutation_eq (b : Backend σ) {plan : MutationPlan} {arguments : Arguments}
    {input : List (String × Datum)}
    (given : Members.get? plan.argument arguments = some (.object input)) (r : Run σ) :
    (mutation b plan arguments).run r = match operation plan input with
      | .error e => (.error e, r)
      | .ok op =>
        if op.isEmpty then (.ok none, r) else answered plan r (b.commit op r.store) := by
  have opened : (mutation b plan arguments).run r =
      (((operation plan input : Except GraphError Operation) : Resolving σ Operation) >>= fun op =>
        if op.isEmpty then pure none else send b op >>= fun stamp =>
          pure (stamp.map (result plan))).run r := by
    unfold mutation
    rw [given]
    rfl
  rw [opened]
  cases collected : operation plan input with
  | error e => rfl
  | ok op =>
    change (if op.isEmpty then (pure none : Resolving σ (Option Outcome)) else
      send b op >>= fun stamp => pure (stamp.map (result plan))) r = _
    by_cases empty : op.isEmpty = true
    · rw [if_pos empty]
      exact (if_pos empty).symm
    · rw [if_neg empty]
      refine Eq.trans ?_ (if_neg empty).symm
      rw [bind_apply, send]
      rcases b.commit op r.store with ⟨_ | _, _⟩ <;> rfl

theorem mutation_objectless (b : Backend σ) {plan : MutationPlan} {arguments : Arguments}
    (absent : (Members.get? plan.argument arguments).bind Datum.asObject? = none) (r : Run σ) :
    (mutation b plan arguments).run r =
      (.error (ResolveProblem.notAnObject plan.argument).error, r) := by
  unfold mutation
  rw [absent]
  rfl

theorem foldl_ask_isEmpty (ws : List Demand) : (ws.foldl ask {}).isEmpty = ws.isEmpty := by
  simp [foldl_ask, Operation.isEmpty]

end Commit

namespace Memory

-- A store that some calls have made of the empty one.
def Reachable (m : Memory) : Prop := ∃ calls, (Chronicle.run calls).memory = m

theorem Reachable.counter {m : Memory} (reachable : m.Reachable) :
    ∃ n : UInt64, m.version = .ofCounter n := by
  obtain ⟨calls, rfl⟩ := reachable
  exact ⟨_, (Chronicle.sound_run calls).version⟩

end Memory

namespace Commit

theorem holds_foldl_ask (ws : List Demand) (m : Memory) :
    (ws.foldl ask {}).checks.all m.holds = true ↔ ∀ w ∈ ws, m.stamp? w.key = w.expected := by
  simp only [foldl_ask, List.nil_append, List.all_map, List.all_eq_true, Function.comp_apply,
    Demand.check, Memory.holds]
  exact forall₂_congr fun _ _ => decide_eq_true_iff

theorem written_of_commit {m m' : Memory} {ws : List Demand} {stamp : Versionstamp}
    (committed : m.commit (ws.foldl ask {}) = (.ok (some stamp), m')) : Written ws stamp m m' := by
  obtain ⟨_, _, _, rows⟩ := Memory.commit_ok committed
  refine written_of_settle fun key => ?_
  rw [rows, Operation.last?, foldl_ask]
  rfl

section

variable {plan : MutationPlan} {arguments : Arguments} {input : List (String × Datum)}
  {listed : List (Binding × Datum)} {r : Run Memory}

-- Collecting well-formed items gives one operation, which is sent unless it is empty.
theorem mutation_of_asks {ws : List Demand}
    (given : Members.get? plan.argument arguments = some (.object input))
    (lists : Listed input plan.bindings listed) (asks : AllAsk listed ws) :
    (mutation Memory.backend plan arguments).run r =
      if ws.isEmpty then (.ok none, r)
      else answered plan r (r.store.commit (ws.foldl ask {})) := by
  rw [mutation_eq Memory.backend given, operation, ← lists.eq_items, addItems_of_asks asks]
  simp only [foldl_ask_isEmpty]
  rfl

theorem Transaction.runs {answer : Except GraphError (Option Outcome)} {m' : Memory}
    (given : Members.get? plan.argument arguments = some (.object input))
    (lists : Listed input plan.bindings listed)
    (transaction : Transaction plan listed r.store answer m') :
    (mutation Memory.backend plan arguments).run r = (answer, { r with store := m' }) := by
  cases transaction with
  | malformed flaw =>
    rw [mutation_eq Memory.backend given, operation, ← lists.eq_items, addItems_of_flaw flaw]
  | empty none =>
    subst none
    rw [mutation_of_asks given lists .nil]
    rfl
  | @rejected ws asks stale =>
    obtain ⟨w, member, differs⟩ := stale
    have some : ws ≠ [] := List.ne_nil_of_mem member
    rw [mutation_of_asks given lists asks, if_neg (by simpa using some)]
    have refused : (ws.foldl ask {}).checks.all r.store.holds ≠ true :=
      fun holds => differs ((holds_foldl_ask ws _).mp holds w member)
    rw [Memory.commit, if_neg refused]
    rfl
  | @committed ws n n' _ asks some fresh version next version' written =>
    rw [mutation_of_asks given lists asks, if_neg (by simpa using some)]
    have stepped : r.store.version.next = .ok (.ofCounter n') := by
      have bound := n'.toNat_lt
      rw [version, Versionstamp.next_ofCounter, if_pos (by omega)]
      rw [show n + 1 = n' from UInt64.toNat_inj.mp (by rw [UInt64.toNat_add]; simp; omega)]
    rw [Memory.commit, if_pos ((holds_foldl_ask ws _).mpr fresh), stepped]
    have same : (⟨(ws.foldl ask {}).mutations.foldl (Memory.apply (.ofCounter n')) r.store.rows,
        .ofCounter n'⟩ : Memory) = m' := by
      have written' : Written ws m'.version r.store
          ⟨(ws.foldl ask {}).mutations.foldl (Memory.apply (.ofCounter n')) r.store.rows,
            .ofCounter n'⟩ := by
        refine written_of_settle fun key => ?_
        rw [Memory.get?_foldl_apply, foldl_ask, version']
        rfl
      have rows := written'.unique written
      obtain ⟨rows', stamp⟩ := m'
      obtain rfl : stamp = .ofCounter n' := version'
      exact congrArg (Memory.mk · (.ofCounter n')) rows
    rw [version', ← same]
    rfl

theorem transaction_exists (plan : MutationPlan) (listed : List (Binding × Datum)) {m : Memory}
    {n : UInt64} (version : m.version = .ofCounter n) (room : m.version ≠ .last) :
    ∃ answer m', Transaction plan listed m answer m' := by
  obtain ⟨ws, asks⟩ | ⟨p, flaw⟩ := allAsk_or_flaw listed
  · by_cases none : ws = []
    · subst none
      obtain rfl := List.forall₂_nil_right_iff.mp asks
      exact ⟨_, _, .empty rfl⟩
    · by_cases fresh : ∀ w ∈ ws, m.stamp? w.key = w.expected
      · have next := Versionstamp.next_ofCounter_of_ne (version ▸ room)
        let stamp := Versionstamp.ofCounter (n + 1)
        refine ⟨_, ⟨(ws.map Demand.write).foldl (Memory.apply stamp) m.rows, stamp⟩,
          .committed asks none fresh version next.2 rfl (written_of_settle fun key => ?_)⟩
        exact Memory.get?_foldl_apply _ _ _ _
      · simp only [not_forall] at fresh
        obtain ⟨w, member, differs⟩ := fresh
        exact ⟨_, _, .rejected asks ⟨w, member, differs⟩⟩
  · exact ⟨_, _, .malformed flaw⟩

theorem transaction_iff {answer : Except GraphError (Option Outcome)} {m' : Memory}
    (given : Members.get? plan.argument arguments = some (.object input))
    (lists : Listed input plan.bindings listed) (reachable : r.store.Reachable)
    (room : r.store.version ≠ .last) :
    Transaction plan listed r.store answer m' ↔
      (mutation Memory.backend plan arguments).run r = (answer, { r with store := m' }) := by
  refine ⟨fun transaction => transaction.runs given lists, fun runs => ?_⟩
  obtain ⟨n, version⟩ := reachable.counter
  obtain ⟨answer', m'', transaction⟩ := transaction_exists plan listed version room
  have same := (transaction.runs given lists).symm.trans runs
  obtain ⟨rfl, runs'⟩ := Prod.mk.inj same
  obtain rfl : m'' = m' := congrArg Run.store runs'
  exact transaction

end

end Commit

end RowGraph
