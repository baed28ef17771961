import RowGraph.Proofs.Mutation.Queries
/-!
What requests do to an in-memory store. A request takes its turn at the store field by field, in the
order in which the fields are invoked; a turn either leaves the store as it is, for one of a few
reasons, or it is a mutation field whose commit goes through. Main statement: over any requests the
counter of the store grows by the number of those commits, and without one nothing changes.
-/

namespace RowGraph

namespace Memory

-- A state in which the counter stands higher by some commits.
def Counts (m : Memory) (k : Nat) (m' : Memory) : Prop :=
  ∃ n n' : UInt64, m.version = .ofCounter n ∧ m'.version = .ofCounter n' ∧ n'.toNat = n.toNat + k

theorem Reachable.counts {m : Memory} (reachable : m.Reachable) : m.Counts 0 m := by
  obtain ⟨n, version⟩ := reachable.counter
  exact ⟨n, n, version, version, rfl⟩

theorem Counts.here {m m' : Memory} {k : Nat} (counts : m.Counts k m') : m'.Counts 0 m' := by
  obtain ⟨_, n, _, version, _⟩ := counts
  exact ⟨n, n, version, version, rfl⟩

theorem Counts.trans {m m' m'' : Memory} {j k : Nat} (first : m.Counts j m')
    (second : m'.Counts k m'') : m.Counts (j + k) m'' := by
  obtain ⟨n, n', version, version', more⟩ := first
  obtain ⟨i, i', between, version'', more'⟩ := second
  obtain rfl : i = n' := Versionstamp.ofCounter_injective (between.symm.trans version')
  exact ⟨n, i', version, version'', by omega⟩

theorem Reachable.commit {m : Memory} (reachable : m.Reachable) (op : Operation) :
    (m.commit op).2.Reachable := by
  obtain ⟨calls, rfl⟩ := reachable
  refine ⟨calls ++ [.commit op], ?_⟩
  rw [Chronicle.run, List.foldl_append]
  rfl

theorem Reachable.moves {m m' : Memory} (reachable : m.Reachable)
    (moves : Moves Memory.backend m m') : m'.Reachable :=
  moves.keeps Reachable (fun _ _ start => start) (fun op _ start => start.commit op) reachable

def commitAll (m : Memory) (ops : List Operation) : Memory :=
  ops.foldl (fun m op => (m.commit op).2) m

theorem commitAll_append (m : Memory) (ops more : List Operation) :
    m.commitAll (ops ++ more) = (m.commitAll ops).commitAll more := List.foldl_append

theorem Reachable.commitAll {m : Memory} (reachable : m.Reachable) (ops : List Operation) :
    (m.commitAll ops).Reachable := by
  induction ops generalizing m with
  | nil => exact reachable
  | cons op rest ih => exact ih (reachable.commit op)

-- Reading an in-memory store leaves no trace.
theorem commitAll_of_sends {m m' : Memory} {ops : List Operation}
    (sends : Sends Memory.backend m ops m') : m' = m.commitAll ops := by
  induction sends with
  | nothing => rfl
  | get key _ ih => exact ih
  | commit op _ ih =>
    rw [ih, commitAll_append]
    rfl

end Memory

-- A mutation field that no hook refuses, with the items of the object that it is given.
structure Schema.Submits (s : Schema) (a : Asked) (plan : MutationPlan)
    (listed : List (Binding × Datum)) : Prop where
  free : s.refusal? a.type a.field a.arguments = none
  served : FieldMap.get? s.resolvers a.type a.field = some (.mutation plan)
  given : ∃ input, Members.get? plan.argument a.arguments = some (.object input) ∧
    Commit.Listed input plan.bindings listed

-- Why what was invoked leaves the store as it is.
inductive Spares (s : Schema) (m : Memory) (v : Visit) : Prop where
  | element : v.place.asked = none → Spares s m v
  | reads : v.place.asked = some a → ¬ s.Writes a.type a.field → Spares s m v
  | refused : v.place.asked = some a → s.refusal? a.type a.field a.arguments = some message →
      Spares s m v
  | noObject : v.place.asked = some a →
      FieldMap.get? s.resolvers a.type a.field = some (.mutation plan) →
      (∀ input, Members.get? plan.argument a.arguments ≠ some (.object input)) → Spares s m v
  -- Some item is not well formed, after any number of others that are.
  | malformed : v.place.asked = some a → s.Submits a plan listed → Commit.FirstFlaw listed p →
      Spares s m v
  | empty : v.place.asked = some a → s.Submits a plan [] → Spares s m v
  -- Some check fails, whatever becomes of the others.
  | rejected {ws : List Commit.Demand} : v.place.asked = some a → s.Submits a plan listed →
      Commit.AllAsk listed ws → (∃ w ∈ ws, m.stamp? w.key ≠ w.expected) → Spares s m v
  | exhausted {ws : List Commit.Demand} : v.place.asked = some a → s.Submits a plan listed →
      Commit.AllAsk listed ws → ws ≠ [] → (∀ w ∈ ws, m.stamp? w.key = w.expected) →
      m.version = .last → Spares s m v

-- A mutation field whose commit goes through: all of its writes happen, under the next stamp.
inductive Commits (s : Schema) (m : Memory) (v : Visit) (m' : Memory) : Prop where
  | succeeds {ws : List Commit.Demand} : v.place.asked = some a → s.Submits a plan listed →
      Commit.AllAsk listed ws → ws ≠ [] → (∀ w ∈ ws, m.stamp? w.key = w.expected) →
      m.commit (ws.foldl Commit.ask {}) = (.ok (some m'.version), m') →
      Commit.Written ws m'.version m m' → m.Counts 1 m' → Commits s m v m'

-- Turn by turn, with the number of the commits that go through.
inductive Turns (s : Schema) : Memory → List Visit → Nat → Memory → Prop where
  | done : Turns s m [] 0 m
  | spared : Spares s m v → Turns s m rest k m' → Turns s m (v :: rest) k m'
  | committed : Commits s m v between → Turns s between rest k m' →
      Turns s m (v :: rest) (k + 1) m'

namespace Schema

variable {s : Schema} {m : Memory} {v : Visit} {a : Asked} {plan : MutationPlan}
  {listed : List (Binding × Datum)}

theorem sent_asked (asked : v.place.asked = some a) :
    s.sent v = Commit.sendsOf (s.items a.type a.field a.arguments) := by
  rw [s.sent_eq, listed, asked]

theorem Submits.items (submits : s.Submits a plan listed) :
    s.items a.type a.field a.arguments = listed := by
  obtain ⟨input, given, lists⟩ := submits.given
  rw [Schema.items, submits.free, submits.served]
  simp only [given, Option.bind_some, Datum.asObject?, lists.eq_items]

theorem sent_submits (asked : v.place.asked = some a) (submits : s.Submits a plan listed) :
    s.sent v = Commit.sendsOf listed := by
  rw [sent_asked asked, submits.items]

theorem sent_unwriting (asked : v.place.asked = some a) (reads : ¬ s.Writes a.type a.field) :
    s.sent v = [] := by
  have none : s.items a.type a.field a.arguments = [] := by
    unfold items
    split
    · rename_i plan _ served
      exact absurd ⟨plan, served⟩ reads
    · rfl
  rw [sent_asked asked, none]
  rfl

theorem sent_refused {message : String} (asked : v.place.asked = some a)
    (refused : s.refusal? a.type a.field a.arguments = some message) : s.sent v = [] := by
  rw [sent_asked asked, items, refused]
  rfl

-- The items of a mutation field are those of the object that it is given, if it is given one.
theorem submits_or_itemless (free : s.refusal? a.type a.field a.arguments = none)
    (served : FieldMap.get? s.resolvers a.type a.field = some (.mutation plan)) :
    (∃ listed, s.Submits a plan listed) ∨ s.items a.type a.field a.arguments = [] ∧
      ∀ input, Members.get? plan.argument a.arguments ≠ some (.object input) := by
  cases given : (Members.get? plan.argument a.arguments).bind Datum.asObject? with
  | none =>
    refine .inr ⟨?_, fun input same => ?_⟩
    · rw [items, free, served]
      simp only [given]
    · rw [same] at given
      cases given
  | some input =>
    exact .inl ⟨_, free, served, input, Commit.object_given.mp given,
      Commit.listed_items input plan.bindings⟩

theorem submits_or_idle (asked : v.place.asked = some a)
    (free : s.refusal? a.type a.field a.arguments = none)
    (served : FieldMap.get? s.resolvers a.type a.field = some (.mutation plan)) :
    (∃ listed, s.Submits a plan listed) ∨ s.sent v = [] ∧
      ∀ input, Members.get? plan.argument a.arguments ≠ some (.object input) := by
  refine (submits_or_itemless free served).imp_right (And.imp_left fun none => ?_)
  rw [sent_asked asked, none]
  rfl

end Schema

theorem Commit.sendsOf_asks {listed : List (Binding × Datum)} {ws : List Demand}
    (asks : AllAsk listed ws) (some : ws ≠ []) : sendsOf listed = [ws.foldl ask {}] := by
  unfold sendsOf
  rw [addItems_of_asks asks]
  simp only [foldl_ask_isEmpty]
  rw [if_neg (by simpa using some)]

theorem Commit.sendsOf_flaw {listed : List (Binding × Datum)} {p : ResolveProblem}
    (flaw : FirstFlaw listed p) : sendsOf listed = [] := by
  unfold sendsOf
  rw [addItems_of_flaw flaw]

theorem Memory.Reachable.counts_one {m : Memory} (reachable : m.Reachable) {m' : Memory}
    (next : m.version.next = .ok m'.version) : m.Counts 1 m' := by
  obtain ⟨n, version⟩ := reachable.counter
  have room : m.version ≠ .last := by
    intro top
    rw [top, Versionstamp.last, Versionstamp.next_ofCounter] at next
    cases next
  rw [version] at next room
  obtain ⟨next', more⟩ := Versionstamp.next_ofCounter_of_ne room
  exact ⟨n, n + 1, version, Except.ok.inj (next.symm.trans next'), more⟩

-- One turn, by what the field sends.
theorem turn_of_visit (s : Schema) {m : Memory} (reachable : m.Reachable) (v : Visit) :
    Spares s m v ∧ m.commitAll (s.sent v) = m ∨ Commits s m v (m.commitAll (s.sent v)) := by
  have idle (spares : Spares s m v) (nothing : s.sent v = []) :
      Spares s m v ∧ m.commitAll (s.sent v) = m ∨ Commits s m v (m.commitAll (s.sent v)) := by
    rw [nothing]
    exact .inl ⟨spares, rfl⟩
  cases asked : v.place.asked with
  | none => exact idle (.element asked) (by rw [Schema.sent, asked])
  | some a =>
    by_cases writes : s.Writes a.type a.field
    swap
    · exact idle (.reads asked writes) (Schema.sent_unwriting asked writes)
    obtain ⟨plan, served⟩ := writes
    cases free : s.refusal? a.type a.field a.arguments with
    | some message => exact idle (.refused asked free) (Schema.sent_refused asked free)
    | none =>
      obtain ⟨listed, submits⟩ | ⟨nothing, noObject⟩ := Schema.submits_or_idle asked free served
      swap
      · exact idle (.noObject asked served noObject) nothing
      have sent := Schema.sent_submits asked submits
      obtain ⟨ws, asks⟩ | ⟨p, flaw⟩ := Commit.allAsk_or_flaw listed
      swap
      · exact idle (.malformed asked submits flaw) (sent.trans (Commit.sendsOf_flaw flaw))
      by_cases none : ws = []
      · subst none
        obtain rfl := List.forall₂_nil_right_iff.mp asks
        exact idle (.empty asked submits) sent
      · rw [sent, Commit.sendsOf_asks asks none]
        change Spares s m v ∧ (m.commit _).2 = m ∨ Commits s m v (m.commit _).2
        have fresh := Commit.holds_foldl_ask ws m
        obtain ⟨stale, same⟩ | ⟨holds, e, full, same⟩ | ⟨holds, stamp, next, same⟩ :=
          m.commit_cases (ws.foldl Commit.ask {})
        · rw [same]
          have some : ¬ ∀ w ∈ ws, m.stamp? w.key = w.expected := by
            rw [← fresh, stale]
            simp
          simp only [not_forall] at some
          obtain ⟨w, member, differs⟩ := some
          exact .inl ⟨.rejected asked submits asks ⟨w, member, differs⟩, rfl⟩
        · rw [same]
          obtain ⟨n, version⟩ := reachable.counter
          have top := (Versionstamp.next_ofCounter_error (version ▸ full)).2
          exact .inl ⟨.exhausted asked submits asks none (fresh.mp holds) (version.trans top), rfl⟩
        · rw [same]
          exact .inr (.succeeds asked submits asks none (fresh.mp holds) same
            (Commit.written_of_commit same) (reachable.counts_one next))

theorem turns_of_visits (s : Schema) (visits : List Visit) {m : Memory} (reachable : m.Reachable) :
    ∃ k, Turns s m visits k (m.commitAll (visits.flatMap s.sent)) := by
  induction visits generalizing m with
  | nil => exact ⟨0, .done⟩
  | cons v rest ih =>
    rw [List.flatMap_cons, Memory.commitAll_append]
    have after : (m.commitAll (s.sent v)).Reachable := reachable.commitAll _
    obtain ⟨k, turns⟩ := ih after
    obtain ⟨spares, same⟩ | commits := turn_of_visit s reachable v
    · rw [same] at turns ⊢
      exact ⟨k, .spared spares turns⟩
    · exact ⟨k + 1, .committed commits turns⟩

namespace Turns

variable {s : Schema} {m m' : Memory} {visits : List Visit} {k : Nat}

theorem counts (turns : Turns s m visits k m') (start : m.Counts 0 m) : m.Counts k m' := by
  induction turns with
  | done => exact start
  | spared _ _ ih => exact ih start
  | committed commits _ ih =>
    cases commits with
    | succeeds _ _ _ _ _ _ _ counts =>
      have both := counts.trans (ih counts.here)
      rwa [Nat.add_comm] at both

theorem unmoved (turns : Turns s m visits 0 m') : m' = m := by
  generalize same : 0 = k at turns
  induction turns with
  | done => rfl
  | spared _ _ ih => exact ih same
  | committed => cases same

-- Where nothing writes, all turns leave the store as it is.
theorem harmless (turns : Turns s m visits k m')
    (reads : ∀ v ∈ visits, ∀ a, v.place.asked = some a → ¬ s.Writes a.type a.field) : k = 0 := by
  induction turns with
  | done => rfl
  | spared _ _ ih => exact ih fun v member => reads v (List.mem_cons_of_mem _ member)
  | committed commits _ _ =>
    cases commits with
    | succeeds asked submits => exact absurd ⟨_, submits.served⟩ (reads _ List.mem_cons_self _ asked)

end Turns

-- What a request has done to a store, with the number of its commits that went through.
structure Answered (s : Schema) (request : Request) (m : Memory) (k : Nat) (m' : Memory) : Prop where
  -- Requests that are turned down, or that have no root to start from.
  refused : ∀ refusal, request.prepare s = .error refusal → k = 0
  rootless : s.watch? Memory.backend request m = none → k = 0
  query : ∀ p, request.prepare s = .ok p → p.operation.kind = .query → k = 0
  turns : ∀ w, s.watch? Memory.backend request m = some w →
    Turns s m (Invocation.visitsOf w.seen) k m'
  unmoved : k = 0 → m' = m
  counts : m.Counts k m'

theorem Schema.Built.answered {s : Schema} (built : s.Built) (request : Request) {m : Memory}
    (reachable : m.Reachable) :
    ∃ k, Answered s request m k (s.execute Memory.backend request m).store := by
  cases watched : s.watch? Memory.backend request m with
  | none =>
    rw [Schema.execute_unwatched watched]
    refine ⟨0, fun _ _ => rfl, fun _ => rfl, fun _ _ _ => rfl, fun w run => ?_, fun _ => rfl,
      reachable.counts⟩
    cases run.symm.trans watched
  | some w =>
    obtain ⟨k, turns⟩ := turns_of_visits s (Invocation.visitsOf w.seen) reachable
    rw [← Memory.commitAll_of_sends (Schema.watch?_sends watched),
      ← Schema.execute_watch watched] at turns
    refine ⟨k, fun refusal turned => ?_, ?_, fun p prepared query => ?_, ?_, ?_, ?_⟩
    · unfold Schema.watch? at watched
      rw [turned] at watched
      cases watched
    · intro rootless
      cases rootless.symm.trans watched
    · exact turns.harmless (built.query_harmless watched prepared query)
    · intro w' same
      obtain rfl := Option.some.inj (watched.symm.trans same)
      exact turns
    · rintro rfl
      exact turns.unmoved
    · exact turns.counts reachable.counts

-- Requests one after another, each to a schema of its own.
def serve (m : Memory) : List (Schema × Request) → Memory
  | [] => m
  | (s, request) :: rest => serve (s.execute Memory.backend request m).store rest

inductive Served : Memory → List (Schema × Request) → Nat → Memory → Prop where
  | done : Served m [] 0 m
  | next : Answered s request m j between → Served between rest k m' →
      Served m ((s, request) :: rest) (j + k) m'

theorem commits_counted {requests : List (Schema × Request)}
    (built : ∀ q ∈ requests, q.1.Built) {m : Memory} (reachable : m.Reachable) :
    ∃ k, Served m requests k (serve m requests) ∧ (serve m requests).Reachable ∧
      m.Counts k (serve m requests) ∧ (k = 0 → serve m requests = m) := by
  induction requests generalizing m with
  | nil => exact ⟨0, .done, reachable, reachable.counts, fun _ => rfl⟩
  | cons q rest ih =>
    obtain ⟨s, request⟩ := q
    obtain ⟨j, answered⟩ := (built _ List.mem_cons_self).answered request reachable
    obtain ⟨k, served, kept, counts, unmoved⟩ :=
      ih (fun q member => built q (List.mem_cons_of_mem _ member))
        (reachable.moves (s.execute_moves Memory.backend request m))
    refine ⟨j + k, .next answered served, kept, answered.counts.trans counts, fun none => ?_⟩
    obtain ⟨rfl, rfl⟩ : j = 0 ∧ k = 0 := by omega
    exact (unmoved rfl).trans (answered.unmoved rfl)

-- A book is added; adding it once more is turned down by its check.
def addRequest : Request :=
  { source := Overview.ask "mutation" ["write(input: \x7badd: \x7bid: \"2\"\x7d\x7d)"] }

def lookRequest : Request :=
  { source := Overview.ask "query" [Overview.ask "book(id: 2)" ["title"]] }

theorem shop_commits_counted : ∃ s : Schema, s.Built ∧ shopStore.Reachable ∧
    let requests := [(s, addRequest), (s, addRequest), (s, lookRequest)]
    (∀ q ∈ requests, q.1.Built) ∧ ∃ k, k = 1 ∧
      Served shopStore requests k (serve shopStore requests) ∧ (serve shopStore requests).Reachable ∧
      shopStore.Counts k (serve shopStore requests) ∧ (k = 0 → serve shopStore requests = shopStore) := by
  have served : ((Session.build {} shop []).toOption.map fun s =>
      (serve shopStore [(s, addRequest), (s, addRequest), (s, lookRequest)]).version) =
      some (.ofCounter 2) := by
    decide +kernel
  obtain ⟨s, made, version⟩ := Option.map_eq_some_iff.mp served
  have built : s.Built := ⟨{}, shop, [], ok_of_toOption made⟩
  have reachable : shopStore.Reachable := ⟨_, rfl⟩
  have each : ∀ q ∈ [(s, addRequest), (s, addRequest), (s, lookRequest)], q.1.Built := by
    intro q member
    simp only [List.mem_cons, List.not_mem_nil, or_false] at member
    rcases member with rfl | rfl | rfl <;> exact built
  obtain ⟨k, answers, kept, counts, unmoved⟩ := commits_counted each reachable
  refine ⟨s, built, reachable, each, k, ?_, answers, kept, counts, unmoved⟩
  obtain ⟨n, n', before, after, more⟩ := counts
  obtain rfl : n = 1 := Versionstamp.ofCounter_injective (before.symm.trans (by decide))
  obtain rfl : n' = 2 := Versionstamp.ofCounter_injective (after.symm.trans version)
  change 2 = 1 + k at more
  omega

end RowGraph
