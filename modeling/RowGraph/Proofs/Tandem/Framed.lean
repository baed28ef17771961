import RowGraph.Proofs.Execution.Consulted
import RowGraph.Proofs.Mutation.Counted
import RowGraph.Proofs.Propagation.Absorption
import RowGraph.Proofs.Schema.Pieces
import RowGraph.Proofs.Tandem.Masking
/-!
What a query depends on. The rows that a query reads are chosen by the rows that it has read before,
so two stores that hold the same at these keys are read at the same keys, one after another, and are
shown alike. Main statement: this is so for every query, and a commit elsewhere is not seen by it.
-/

namespace RowGraph

namespace Memory

-- The same row with the same stamp, or none.
def AgreeAt (keys : List Key) (m m' : Memory) : Prop := ∀ key ∈ keys, m'.get? key = m.get? key

theorem agreeAt_commit {m m' : Memory} {op : Operation} {answer : Except StoreError (Option Versionstamp)}
    (committed : m.commit op = (answer, m')) {keys : List Key}
    (elsewhere : ∀ key ∈ keys, ¬ op.Writes key) : m.AgreeAt keys m' := by
  intro key member
  by_cases done : ∃ stamp, answer = .ok (some stamp)
  · obtain ⟨stamp, rfl⟩ := done
    obtain ⟨_, _, _, rows⟩ := commit_ok committed
    unfold get?
    rw [rows, Operation.last?_eq_none_iff.mpr (elsewhere key member), settle]
  · rw [commit_frame committed fun stamp same => done ⟨stamp, same⟩]

theorem agreeAt_commitAll {keys : List Key} {ops : List Operation}
    (elsewhere : ∀ op ∈ ops, ∀ key ∈ keys, ¬ op.Writes key) (m : Memory) :
    m.AgreeAt keys (m.commitAll ops) := by
  induction ops generalizing m with
  | nil => exact fun _ _ => rfl
  | cons op rest ih =>
    intro key member
    have later := ih (fun op' there => elsewhere op' (List.mem_cons_of_mem _ there)) (m.commit op).2
    have here : m.AgreeAt keys (m.commit op).2 :=
      agreeAt_commit rfl (elsewhere op List.mem_cons_self)
    exact (later key member).trans (here key member)

-- What a store answers that is only read.
def answer (m : Memory) (key : Key) : Event := .got key (.ok (m.get? key))

-- Two stores side by side while the first one goes through a history that has reads only, and that the
-- second one would answer alike.
def beside (s : Schema) (history : List Event) (reads : ∀ event ∈ history, event.key?.isSome) :
    Tandem s Memory.backend.noted Memory.backend.noted where
  level n n' := n'.events = n.events ∧ n.store.AgreeAt (history.filterMap Event.key?) n'.store
  lost n := ¬ n.events <+: history
  get key n n' := by
    rintro ⟨same, agree⟩
    by_cases ahead : n.events ++ [n.store.answer key] <+: history
    · have member : key ∈ history.filterMap Event.key? := by
        refine List.mem_filterMap.mpr ⟨n.store.answer key, ahead.subset ?_, rfl⟩
        exact List.mem_append_right _ List.mem_cons_self
      have found := agree key member
      refine .inr ⟨?_, ?_, agree⟩
      · simp only [Backend.noted, Diary.got, Memory.backend, found]
        exact .ok (Option.rel_refl Entry.Alike.refl _)
      · simp only [Backend.noted, Diary.got, Memory.backend, found, same]
    · exact .inl ahead
  commit op n n' _ := by
    refine .inl fun ahead => ?_
    have known := reads _ (ahead.subset (List.mem_append_right _ List.mem_cons_self))
    cases known
  lost_get key n lost ahead := lost ((List.prefix_append _ _).trans ahead)
  lost_commit op n lost ahead := lost ((List.prefix_append _ _).trans ahead)

end Memory

-- A store that has only been read is as it was, and all answers are its own.
theorem Diary.untouched {m : Memory} {n : Diary Memory}
    (moves : Moves Memory.backend.noted ⟨m, []⟩ n) (reads : ∀ event ∈ n.events, event.key?.isSome) :
    n.store = m ∧ n.events = n.keys.map m.answer := by
  refine moves.keeps (fun n => (∀ event ∈ n.events, event.key?.isSome) →
    n.store = m ∧ n.events = n.keys.map m.answer) ?_ ?_ (fun _ => ⟨rfl, rfl⟩) reads
  · intro key n before reads
    obtain ⟨rfl, answered⟩ := before fun event member => reads event (List.mem_append_left _ member)
    refine ⟨rfl, ?_⟩
    simp only [Backend.noted, Diary.got, Diary.keys, List.filterMap_append, List.map_append]
    rw [← Diary.keys, ← answered]
    rfl
  · intro op n _ reads
    cases reads _ (List.mem_append_right _ List.mem_cons_self)

namespace Schema

variable {s : Schema} {request : Request} {m : Memory}

def Queries (s : Schema) (request : Request) : Prop :=
  ∀ p, request.prepare s = .ok p → p.operation.kind = .query

-- One read for every id that a query comes to, in their order.
theorem Built.query_noted (built : s.Built) (query : s.Queries request) (m : Memory) :
    let n := (s.execute Memory.backend.noted request ⟨m, []⟩).store
    n.store = m ∧ n.events = n.keys.map m.answer ∧
      ∀ w, s.watch? Memory.backend.noted request ⟨m, []⟩ = some w →
        n.keys = (Invocation.visitsOf w.seen).flatMap s.lookups := by
  intro n
  cases watched : s.watch? Memory.backend.noted request ⟨m, []⟩ with
  | none =>
    have same : n = ⟨m, []⟩ := execute_unwatched watched
    rw [same]
    exact ⟨rfl, rfl, fun _ absurd => nomatch absurd⟩
  | some w =>
    obtain ⟨notes, each, noted⟩ := watch?_consults watched
    obtain ⟨p, _, prepared, _, _⟩ := watch?_some watched
    have harmless := built.query_harmless watched prepared (query p prepared)
    have calls (v : Visit) (member : v ∈ Invocation.visitsOf w.seen) :
        s.calls v = (s.lookups v).map .get := by
      have nothing : s.sent v = [] := by
        cases asked : v.place.asked with
        | none => rw [sent, asked]
        | some a => exact sent_unwriting asked (harmless v member a asked)
      rw [Schema.calls, nothing, List.map_nil, List.append_nil]
    have consults := (List.forall₂_and_left (p := (· ∈ Invocation.visitsOf w.seen)) _ _).mpr
      ⟨fun _ member => member, each⟩
    have same : n = w.run.store := execute_watch watched
    have reads : ∀ event ∈ n.events, event.key?.isSome := by
      intro event member
      rw [same, noted] at member
      obtain ⟨events, there, inside⟩ := List.mem_flatten.mp member
      obtain ⟨v, _, visited, fault, follows, _⟩ := mem_of_forall₂ consults.flip there
      have asked := follows.asked inside
      rw [calls v visited] at asked
      obtain ⟨key, _, get⟩ := List.mem_map.mp asked
      rw [Event.key?, ← get]
      rfl
    obtain ⟨kept, answered⟩ :=
      Diary.untouched (s.execute_moves Memory.backend.noted request ⟨m, []⟩) reads
    have fine : ∀ event ∈ n.events, event.fault? = none := by
      intro event member
      rw [answered] at member
      obtain ⟨_, _, rfl⟩ := List.mem_map.mp member
      rfl
    refine ⟨kept, answered, fun w' there => ?_⟩
    obtain rfl := Option.some.inj there
    rw [same, noted] at fine
    rw [same, Diary.keys, noted]
    refine Follows.keys_flatten (consults.imp ?_) fine
    rintro v events ⟨visited, fault, follows, _⟩
    exact ⟨fault, calls v visited ▸ follows⟩

theorem Built.query_beside (built : s.Built) (query : s.Queries request) (m : Memory) {m' : Memory} :
    let n := (s.execute Memory.backend.noted request ⟨m, []⟩).store
    let a' := s.execute Memory.backend.noted request ⟨m', []⟩
    m.AgreeAt n.keys m' → a'.store.events = n.events ∧
      a'.response = (s.execute Memory.backend.noted request ⟨m, []⟩).response := by
  intro n a' agree
  obtain ⟨_, answered, _⟩ := built.query_noted query m
  have reads : ∀ event ∈ n.events, event.key?.isSome := by
    intro event member
    rw [answered] at member
    obtain ⟨_, _, rfl⟩ := List.mem_map.mp member
    rfl
  have level : (Memory.beside s n.events reads).level ⟨m, []⟩ ⟨m', []⟩ := ⟨rfl, agree⟩
  rcases (Memory.beside s n.events reads).execute_along built.grounded (Request.Alike.refl s request)
    level with lost | ⟨like, same, _⟩
  · exact absurd (List.prefix_refl n.events) lost
  · exact ⟨same, (Prod.mk.inj like.eq).1⟩

end Schema

-- The response of a query is that of its reads: two stores that agree at all keys that are read of the
-- first one are read alike, and commits that write none of these keys are not seen.
theorem queries_framed {s : Schema} (built : s.Built) {request : Request} (query : s.Queries request)
    (m : Memory) :
    let n := (s.execute Memory.backend.noted request ⟨m, []⟩).store
    let response := (s.execute Memory.backend request m).response
    (n.store = m ∧ n.events = n.keys.map m.answer ∧
      ∀ w, s.watch? Memory.backend.noted request ⟨m, []⟩ = some w →
        n.keys = (Invocation.visitsOf w.seen).flatMap s.lookups) ∧
    (∀ m', m.AgreeAt n.keys m' →
      (s.execute Memory.backend.noted request ⟨m', []⟩).store.events = n.events ∧
        (s.execute Memory.backend request m').response = response) ∧
    ∀ (s' : Schema) (other : Request) (w : Watch Memory (List (String × Datum))),
      s'.watch? Memory.backend other m = some w →
      (∀ op ∈ (Invocation.visitsOf w.seen).flatMap s'.sent, ∀ key ∈ n.keys, ¬ op.Writes key) →
      (s.execute Memory.backend request (s'.execute Memory.backend other m).store).response =
        response := by
  intro n response
  have noted (m : Memory) : (s.execute Memory.backend.noted request ⟨m, []⟩).response =
      (s.execute Memory.backend request m).response :=
    ((Backend.Twin.noted Memory.backend).execute built.grounded request rfl).1
  have beside (m' : Memory) (agree : m.AgreeAt n.keys m') :
      (s.execute Memory.backend.noted request ⟨m', []⟩).store.events = n.events ∧
        (s.execute Memory.backend request m').response = response := by
    obtain ⟨same, alike⟩ := built.query_beside query m agree
    exact ⟨same, by rw [← noted, alike, noted]⟩
  refine ⟨built.query_noted query m, beside, fun s' other w watched elsewhere => ?_⟩
  rw [Schema.execute_watch watched, Memory.commitAll_of_sends (Schema.watch?_sends watched)]
  exact (beside _ (Memory.agreeAt_commitAll elsewhere m)).2

-- The first book is looked at before and after a second one is added.
theorem shop_queries_framed : ∃ (s : Schema) (w : Watch Memory (List (String × Datum))), s.Built ∧
    s.Queries titleRequest ∧ s.watch? Memory.backend addRequest shopStore = some w ∧
    let n := (s.execute Memory.backend.noted titleRequest ⟨shopStore, []⟩).store
    let next := (s.execute Memory.backend addRequest shopStore).store
    n.keys = [⟨"Book", ⟨"1"⟩⟩] ∧ next.version = .ofCounter 2 ∧
    (∀ op ∈ (Invocation.visitsOf w.seen).flatMap s.sent, ∀ key ∈ n.keys, ¬ op.Writes key) ∧
    shopStore.AgreeAt n.keys next ∧
    (s.execute Memory.backend.noted titleRequest ⟨next, []⟩).store.events = n.events ∧
    (s.execute Memory.backend titleRequest next).response =
      (s.execute Memory.backend titleRequest shopStore).response := by
  have ready : ((Session.build {} shop []).toOption.bind fun s =>
      (titleRequest.prepare s).toOption.bind fun p =>
      (s.watch? Memory.backend addRequest shopStore).map fun w =>
        decide (p.operation.kind = .query ∧
          (s.execute Memory.backend.noted titleRequest ⟨shopStore, []⟩).store.keys =
            [⟨"Book", ⟨"1"⟩⟩] ∧
          (s.execute Memory.backend addRequest shopStore).store.version = .ofCounter 2 ∧
          ((Invocation.visitsOf w.seen).flatMap s.sent).flatMap
            (fun op => op.mutations.map Mutation.key) = [⟨"Book", ⟨"2"⟩⟩])) = some true := by
    rw [Session.build_toList]
    simp only [shop, String.toList_append, Overview.toList_ask]
    decide +kernel
  obtain ⟨s, made, ready⟩ := Option.bind_eq_some_iff.mp ready
  obtain ⟨p, prepared, ready⟩ := Option.bind_eq_some_iff.mp ready
  obtain ⟨w, watched, ready⟩ := Option.map_eq_some_iff.mp ready
  obtain ⟨kind, keys, version, writes⟩ := of_decide_eq_true ready
  have built : s.Built := ⟨{}, shop, [], ok_of_toOption made⟩
  have query : s.Queries titleRequest := by
    intro p' prepared'
    rw [Except.ok.inj (prepared'.symm.trans (ok_of_toOption prepared))]
    exact kind
  have elsewhere : ∀ op ∈ (Invocation.visitsOf w.seen).flatMap s.sent,
      ∀ key ∈ (s.execute Memory.backend.noted titleRequest ⟨shopStore, []⟩).store.keys,
        ¬ op.Writes key := by
    rintro op sent key read ⟨left, inside, rfl⟩
    have there : left.key ∈ ((Invocation.visitsOf w.seen).flatMap s.sent).flatMap
        (fun op => op.mutations.map Mutation.key) :=
      List.mem_flatMap.mpr ⟨op, sent, List.mem_map_of_mem inside⟩
    rw [writes, List.mem_singleton] at there
    rw [keys, List.mem_singleton, there] at read
    exact absurd read (by decide)
  have agree : shopStore.AgreeAt
      (s.execute Memory.backend.noted titleRequest ⟨shopStore, []⟩).store.keys
      (s.execute Memory.backend addRequest shopStore).store := by
    rw [Schema.execute_watch watched, Memory.commitAll_of_sends (Schema.watch?_sends watched)]
    exact Memory.agreeAt_commitAll elsewhere shopStore
  exact ⟨s, w, built, query, watched, keys, version, elsewhere, agree,
    ((queries_framed built query shopStore).2.1 _ agree).1,
    (queries_framed built query shopStore).2.2 s addRequest w watched elsewhere⟩

end RowGraph
