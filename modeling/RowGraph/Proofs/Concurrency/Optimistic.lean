import RowGraph.Execution.Overview
import RowGraph.Proofs.Concurrency.Provenance
import RowGraph.Proofs.Concurrency.Shared
import RowGraph.Proofs.Propagation.Request
import RowGraph.Proofs.Versionstamp.Text
/-!
Requests of clients that share a store. A client reads a row through its entry type and later sends
one item that updates or deletes the row under the stamp that it was shown. Main statement: whatever
others do, the item goes through just if nobody has written the row since the read.
-/

namespace RowGraph

variable {σ : Type}

-- The row whose stamp a position has shown, with the text that was shown.
def Schema.stamped? (s : Schema) (v : Visit) : Option (Key × String) :=
  match v.place.asked, v.answer with
  | some ⟨type, field, .row row, _⟩, .ok (some (.string text)) =>
    match s.document.entryTable? type, (row.column? idColumn).bind RowId.ofValue? with
    | some table, some rid => if field = stampField then some (⟨table, rid⟩, text) else none
    | _, _ => none
  | _, _ => none

theorem Schema.stamped?_some {s : Schema} {v : Visit} {key : Key} {text : String}
    (shown : s.stamped? v = some (key, text)) :
    ∃ a row, v.place.asked = some a ∧ s.document.entryTable? a.type = some key.table ∧
      a.parent = .row row ∧ (row.column? idColumn).bind RowId.ofValue? = some key.id ∧
      a.field = stampField ∧ v.answer = .ok (some (.string text)) := by
  unfold stamped? at shown
  split at shown
  · rename_i type field row arguments text' asked answer
    split at shown
    · rename_i table rid wrapped named
      split at shown
      · rename_i stamp
        cases shown
        exact ⟨_, row, asked, wrapped, rfl, named, stamp, answer⟩
      · cases shown
    · cases shown
  · cases shown

namespace Commit

-- The row that an item updates or deletes, with the stamp that it names. With bytes in a column
-- that has to be stored there is no such row.
def guard? (b : Binding) (d : Datum) : Option (Key × String) :=
  match d.asObject? with
  | none => none
  | some item =>
    match named? item, Members.get? stampField item with
    | some rid, some (.string text) =>
      match b.op with
      | .create => none
      | .update =>
        if Datum.hasBinaryMembers (columns item) then none else some (⟨b.table, rid⟩, text)
      | .delete => some (⟨b.table, rid⟩, text)
    | _, _ => none

theorem asks_of_guard {b : Binding} {d : Datum} {key : Key} {stamp : Versionstamp}
    (guarded : guard? b d = some (key, stamp.text)) :
    ∃ left, Asks b d ⟨key, some stamp, left⟩ := by
  unfold guard? at guarded
  split at guarded
  · cases guarded
  · rename_i item object
    obtain rfl := Datum.asObject?_eq_some.mp object
    split at guarded
    · rename_i rid text named given
      split at guarded
      · cases guarded
      · rename_i kind
        split at guarded
        · cases guarded
        · rename_i plain
          cases guarded
          have stores := Value.ofDatumMembers_stores (columns item)
          rw [Bool.eq_false_iff.mpr plain] at stores
          obtain ⟨row, stored⟩ := stores
          exact ⟨_, .update kind named given stamp.ofDatum_text stored⟩
      · rename_i kind
        cases guarded
        exact ⟨_, .delete kind named given stamp.ofDatum_text⟩
    · cases guarded

end Commit

namespace Schema

variable {s : Schema} {b : Backend σ} {request : Request} {store : σ}
  {w : Watch σ (List (String × Datum))}

theorem watch?_sends (watched : s.watch? b request store = some w) :
    Sends b store ((Invocation.visitsOf w.seen).flatMap s.sent) w.run.store := by
  obtain ⟨m, root, _, _, rfl⟩ := watch?_some watched
  let x : Execution σ := ⟨s, b, m.operation.variableDefs, request.values⟩
  have sent : SendsListed x _ [] { store } (x.watch root m.nodes store) :=
    (SendsListed.law x).ofSelections m.nodes [] { store } trivial
  exact sent

theorem watch?_genuine (built : s.Built) (watched : s.watch? b request store = some w) :
    ∀ v ∈ Invocation.visitsOf w.seen, Genuine s b store w.run.store v := by
  obtain ⟨m, root, _, rooted, rfl⟩ := watch?_some watched
  obtain ⟨name, _, found⟩ := Option.bind_eq_some_iff.mp rooted
  let x : Execution σ := ⟨s, b, m.operation.variableDefs, request.values⟩
  have sourced : Sourced x store store root .root :=
    ⟨Catalog.type?_name found, .refl, fun _ _ _ absurd => nomatch absurd⟩
  exact ((provenance_law (x := x) built.grounded store).ofSelections m.nodes [] { store } sourced).2

-- Whatever a request does to a store, it does by calls.
theorem execute_moves (s : Schema) (b : Backend σ) (request : Request) (store : σ) :
    Moves b store (s.execute b request store).store := by
  cases watched : s.watch? b request store with
  | some w =>
    rw [execute_watch watched]
    exact ⟨_, watch?_sends watched⟩
  | none =>
    rw [execute_unwatched watched]
    exact .refl

end Schema

-- So the requests of others, in whatever order they run, are calls as well.
theorem Chronicle.grows_execute (s : Schema) (request : Request) (c : Chronicle) :
    c.Grows (s.execute Chronicle.backend request c).store :=
  .of_moves (s.execute_moves Chronicle.backend request c)

theorem Shared.reads_of_stamped {s : Schema} (built : s.Built) {request : Request} {start : Shared}
    {w : Watch Shared (List (String × Datum))} {key : Key} {text : String}
    (watched : s.watch? Shared.backend request start = some w)
    (shown : (key, text) ∈ (Invocation.visitsOf w.seen).filterMap s.stamped?) :
    ∃ e t, Reads Shared.backend start w.run.store t key e ∧ e.stamp.text = text := by
  obtain ⟨v, member, stamped⟩ := List.mem_filterMap.mp shown
  obtain ⟨a, row, asked, wrapped, parent, named, field, answer⟩ := s.stamped?_some stamped
  obtain ⟨e, ⟨rid, t, reads⟩, rfl, same⟩ :=
    Schema.watch?_genuine built watched v member a key.table row asked wrapped parent
  refine ⟨e, t, ?_, (same field text answer).symm⟩
  -- A read answers with the row of the key that it names.
  have place : e.key = ⟨key.table, rid⟩ := by
    obtain ⟨_, _, rfl⟩ := Option.map_eq_some_iff.mp (Except.ok.inj reads.found)
    rfl
  rw [e.wrapped_id, place] at named
  obtain rfl : rid = key.id := Option.some.inj named
  exact reads

theorem stamps_guard {s : Schema} (built : s.Built) {start start' : Shared}
    {reader writer : Request} {read written : Watch Shared (List (String × Datum))} {key : Key}
    {text : String} (fresh : Chronicle.Grows {} start.chronicle)
    (reads : s.watch? Shared.backend reader start = some read)
    (later : (s.execute Shared.backend reader start).store.chronicle.Grows start'.chronicle)
    (writes : s.watch? Shared.backend writer start' = some written)
    (shown : (key, text) ∈ (Invocation.visitsOf read.seen).filterMap s.stamped?)
    (only : ((Invocation.visitsOf written.seen).flatMap s.listed).map
      (fun i => Commit.guard? i.1 i.2) = [some (key, text)]) :
    ∃ e op t t', e.stamp.text = text ∧
      Reads Shared.backend start (s.execute Shared.backend reader start).store t key e ∧
      SendsOnly Shared.backend start' (s.execute Shared.backend writer start').store t' op ∧
      Shared.Guards key e op t t' := by
  obtain ⟨e, t, seen, rfl⟩ := Shared.reads_of_stamped built reads shown
  obtain ⟨⟨b, d⟩, listed, guarded⟩ := List.map_eq_singleton_iff.mp only
  obtain ⟨left, asks⟩ := Commit.asks_of_guard guarded
  have sends := Schema.watch?_sends writes
  rw [Schema.sent_single listed asks] at sends
  obtain ⟨t', sent⟩ := sends.single
  rw [Schema.execute_watch reads] at later ⊢
  rw [Schema.execute_watch writes]
  refine ⟨e, _, t, t', rfl, seen, sent, ?_⟩
  refine Shared.guards ?_ seen.found ?_ rfl ⟨_, List.mem_singleton_self _, ?_⟩
  · exact (fresh.trans (Shared.grows seen.before)).sound Chronicle.sound_start
  · exact ((Shared.grows seen.after).trans later).trans (Shared.grows ⟨_, sent.before⟩)
  · exact Commit.Demand.write_key _

-- A library whose books are shown with their stamps and can be changed.
def library : String :=
  Overview.ask "type Query" ["book(id: ID!): Record"] ++
  Overview.ask "type Record" ["versionstamp: ID!", "value: Book"] ++
  Overview.ask "type Book" ["title: String"] ++
  Overview.ask "type Mutation" ["write(input: Write!): ID"] ++
  Overview.ask "input Write" ["put: Put @update(table: \"Book\")"] ++
  Overview.ask "input Put" ["id: ID!", "versionstamp: ID!", "title: String"]

def dune : Call := .commit ⟨[], [.set ⟨"Book", ⟨"1"⟩⟩ (Row.ofColumns [("title", .string "Dune")])]⟩

def libraryStore : Shared := { chronicle := Chronicle.run [dune] }

def stampRequest : Request :=
  { source := Overview.ask "query" [Overview.ask "book(id: 1)" ["versionstamp"]] }

def putRequest : Request :=
  { source := Overview.ask "mutation" ["write(input: \x7bput: \x7b" ++
      "id: \"1\", versionstamp: \"00000000000000010000\", title: \"Emma\"\x7d\x7d)"] }

-- Someone writes the book again, as it is, right before the item is sent.
def rewritten (s : Schema) : Shared :=
  ⟨(s.execute Shared.backend stampRequest libraryStore).store.chronicle, [[dune]]⟩

theorem library_stamps_guard : ∃ (s : Schema) (read written : Watch Shared (List (String × Datum))),
    s.Built ∧ Chronicle.Grows {} libraryStore.chronicle ∧
    s.watch? Shared.backend stampRequest libraryStore = some read ∧
    (s.execute Shared.backend stampRequest libraryStore).store.chronicle.Grows
      (rewritten s).chronicle ∧
    s.watch? Shared.backend putRequest (rewritten s) = some written ∧
    (⟨"Book", ⟨"1"⟩⟩, "00000000000000010000") ∈
      (Invocation.visitsOf read.seen).filterMap s.stamped? ∧
    ((Invocation.visitsOf written.seen).flatMap s.listed).map (fun i => Commit.guard? i.1 i.2) =
      [some (⟨"Book", ⟨"1"⟩⟩, "00000000000000010000")] ∧
    ∃ e op t t', e.stamp.text = "00000000000000010000" ∧
      Reads Shared.backend libraryStore (s.execute Shared.backend stampRequest libraryStore).store t
        ⟨"Book", ⟨"1"⟩⟩ e ∧
      SendsOnly Shared.backend (rewritten s)
        (s.execute Shared.backend putRequest (rewritten s)).store t' op ∧
      Shared.Guards ⟨"Book", ⟨"1"⟩⟩ e op t t' := by
  have ready : ((Session.build {} library []).toOption.bind fun s =>
      (s.watch? Shared.backend stampRequest libraryStore).bind fun read =>
      (s.watch? Shared.backend putRequest (rewritten s)).map fun written =>
      ((Invocation.visitsOf read.seen).filterMap s.stamped?,
        ((Invocation.visitsOf written.seen).flatMap s.listed).map
          fun i => Commit.guard? i.1 i.2)) =
      some ([(⟨"Book", ⟨"1"⟩⟩, "00000000000000010000")],
        [some (⟨"Book", ⟨"1"⟩⟩, "00000000000000010000")]) := by
    decide +kernel
  obtain ⟨s, made, ready⟩ := Option.bind_eq_some_iff.mp ready
  obtain ⟨read, reads, ready⟩ := Option.bind_eq_some_iff.mp ready
  obtain ⟨written, writes, ready⟩ := Option.map_eq_some_iff.mp ready
  obtain ⟨shown, only⟩ := Prod.mk.inj ready
  have built : s.Built := ⟨{}, library, [], ok_of_toOption made⟩
  have fresh : Chronicle.Grows {} libraryStore.chronicle := by
    unfold libraryStore Chronicle.run
    exact .performs [dune]
  have later : (s.execute Shared.backend stampRequest libraryStore).store.chronicle.Grows
      (rewritten s).chronicle := by
    simp only [rewritten]
    exact .refl
  have seen : (⟨"Book", ⟨"1"⟩⟩, "00000000000000010000") ∈
      (Invocation.visitsOf read.seen).filterMap s.stamped? := by
    rw [shown]
    exact List.mem_singleton_self _
  exact ⟨s, read, written, built, fresh, reads, later, writes, seen, only,
    stamps_guard built fresh reads later writes seen only⟩

end RowGraph
