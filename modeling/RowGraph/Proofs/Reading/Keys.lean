import RowGraph.Proofs.Mutation.ReadBack
import RowGraph.Proofs.Reading.Origins
import RowGraph.Proofs.Tandem.Framed
/-!
What the fields of a row that was looked up are read from. The id is that of the key and the stamp
is that of the read, whatever columns of these names are stored; every other column is the stored
one. Main statement: in a query this is so for every row that a field is asked of.
-/

namespace RowGraph

variable {σ : Type}

-- What is noted stays noted.
theorem Moves.events {b : Backend σ} {n n' : Diary σ} (moves : Moves b.noted n n') :
    n.events <+: n'.events := by
  refine moves.keeps (fun n' => n.events <+: n'.events) ?_ ?_ List.prefix_rfl
  · intro key n' before
    exact before.trans (List.prefix_append _ _)
  · intro op n' before
    exact before.trans (List.prefix_append _ _)

theorem Fetched.noted {b : Backend σ} {table : String} {n n' : Diary σ} {e : Entry}
    (fetched : Fetched b.noted table n n' e) :
    ∃ rid, Event.got ⟨table, rid⟩ (.ok (some e)) ∈ n'.events := by
  obtain ⟨rid, t, _, found, after⟩ := fetched
  refine ⟨rid, after.events.subset ?_⟩
  rw [← found]
  exact List.mem_append_right _ List.mem_cons_self

namespace Resolve

-- A reference is read from its own column only.
theorem reference_column (b : Backend σ) {name : String} {row row' : Row}
    (same : stored? row' name = stored? row name) (shape : FieldShape) (here : Path) (loc : Location) :
    reference b name shape here loc (.row row') = reference b name shape here loc (.row row) := by
  unfold reference
  rw [parentRow_bind, parentRow_bind, same]

end Resolve

namespace Entry

variable (e : Entry)

theorem column_id : Resolve.column idColumn (.row e.shownRow) =
    .ok (some (.leaf (.string e.key.id.text))) := by
  rw [Resolve.column_row, e.stored?_id]
  rfl

theorem column_wrapped_id : Resolve.column idColumn (.row e.wrapped) =
    .ok (some (.leaf (.string e.key.id.text))) := by
  have stored : Resolve.stored? e.wrapped idColumn = some (.string e.key.id.text) := by
    unfold Resolve.stored?
    rw [e.wrapped_id]
    rfl
  rw [Resolve.column_row, stored]
  rfl

end Entry

-- The fields of an object that shows a row of the store.
structure Schema.Keyed (s : Schema) (a : Asked) (e : Entry)
    (answer : Except ResponseError (Option Datum)) : Prop where
  id : Resolve.column idColumn a.parent = .ok (some (.leaf (.string e.key.id.text)))
  -- An ordinary row has its own columns beside the id.
  column : s.document.kindOf a.type = some .table → ∀ name, name ≠ idColumn →
    Resolve.column name a.parent = Resolve.column name (.row e.row)
  reference : s.document.kindOf a.type = some .table → ∀ name, name ≠ idColumn →
    ∀ {σ : Type} (b : Backend σ) shape here loc,
      Resolve.reference b name shape here loc a.parent =
        Resolve.reference b name shape here loc (.row e.row)
  stamp : ∀ table, s.document.entryTable? a.type = some table →
    Resolve.column stampField a.parent = .ok (some (.leaf (.string e.stamp.text)))
  value : ∀ table, s.document.entryTable? a.type = some table →
    Resolve.value a.parent = .ok (some (.row e.shownRow))
  -- The field is resolved from what is called like it.
  resolver : ∀ r, FieldMap.get? s.resolvers a.type a.field = some r →
    r = .column a.field ∨ (∃ shape, r = .reference a.field shape) ∨ r = .value ∧ a.field = valueField
  answers : s.Answers a answer

namespace Schema

variable {s : Schema}

theorem Built.own_resolver (built : s.Built) {type field : String} {r : Resolver}
    (inner : s.document.kindOf type ≠ none) (resolves : FieldMap.get? s.resolvers type field = some r) :
    r = .column field ∨ (∃ shape, r = .reference field shape) ∨ r = .value ∧ field = valueField := by
  have harmless : ¬ s.Writes type field := fun writes => inner (built.grounded.kindOf_writes writes)
  obtain ⟨_, _, f, _, _, last, serves⟩ := built.grounded.serves resolves
  obtain rfl : f.name = field := by simpa using (last?_some last).2
  cases serves with
  | root => exact absurd built.query_kindless inner
  | column => exact .inl rfl
  | reference => exact .inr (.inl ⟨_, rfl⟩)
  | shown => exact .inl rfl
  | value _ _ named => exact .inr (.inr ⟨rfl, named⟩)
  | mutation => exact absurd ⟨_, resolves⟩ harmless

theorem Built.keyed (built : s.Built) {a : Asked} {e : Entry} {table : String} {row : Row}
    {answer : Except ResponseError (Option Datum)} (form : s.RowForm a.type e table row)
    (parent : a.parent = .row row) (answers : s.Answers a answer) : s.Keyed a e answer := by
  cases form with
  | plain kind =>
    have unwrapped (table : String) : s.document.entryTable? a.type ≠ some table := fun wrapped =>
      nomatch kind.symm.trans (built.grounded.kindOf_entry wrapped)
    refine ⟨?_, fun _ name other => ?_, fun _ name other σ b shape here loc => ?_,
      fun table wrapped => absurd wrapped (unwrapped table),
      fun table wrapped => absurd wrapped (unwrapped table),
      fun r resolves => built.own_resolver (by simp [kind]) resolves, answers⟩
    · rw [parent, e.column_id]
    · rw [parent, Resolve.column_row, Resolve.column_row, e.stored?_other other]
    · rw [parent]
      exact Resolve.reference_column b (e.stored?_other other) shape here loc
  | entry wrapped =>
    have kind := built.grounded.kindOf_entry wrapped
    refine ⟨?_, fun table => absurd table (by simp [kind]), fun table => absurd table (by simp [kind]),
      fun _ _ => ?_, fun _ _ => ?_, fun r resolves => built.own_resolver (by simp [kind]) resolves,
      answers⟩
    · rw [parent, e.column_wrapped_id]
    · rw [parent, e.column_stamp]
    · rw [parent, e.value_held]

end Schema

theorem rows_keep_keys {s : Schema} (built : s.Built) {request : Request} (query : s.Queries request)
    (m : Memory) {w : Watch (Diary Memory) (List (String × Datum))}
    (watched : s.watch? Memory.backend.noted request ⟨m, []⟩ = some w) :
    ∀ v ∈ Invocation.visitsOf w.seen, ∀ a row, v.place.asked = some a → a.parent = .row row →
      ∃ key e, Event.got key (.ok (some e)) ∈ w.run.store.events ∧ m.get? key = some e ∧
        e.key = key ∧ s.RowForm a.type e key.table row ∧ s.Keyed a e v.answer := by
  intro v member a row asked parent
  obtain ⟨p, _, prepared, _, _⟩ := Schema.watch?_some watched
  obtain ⟨rowed, answers⟩ := built.query_founded watched prepared (query p prepared) v member
  obtain ⟨table, e, fetched, form⟩ := rowed a row asked parent
  obtain ⟨rid, got⟩ := fetched.noted
  -- A query only reads, so every answer is that of the store as it was.
  obtain ⟨_, answered, _⟩ := built.query_noted query m
  have noted := got
  rw [← Schema.execute_watch watched, answered] at noted
  obtain ⟨key, _, same⟩ := List.mem_map.mp noted
  obtain ⟨rfl, found⟩ := Event.got.inj same
  have stored : m.get? ⟨table, rid⟩ = some e := Except.ok.inj found
  have keyed : e.key = ⟨table, rid⟩ := by
    obtain ⟨_, _, rfl⟩ := Option.map_eq_some_iff.mp stored
    rfl
  exact ⟨_, e, got, stored, keyed, form, built.keyed form parent (answers a asked)⟩

-- A library of records, with a book whose own columns are called like the ones that are shown of it.
def archive : String :=
  Overview.ask "type Query" ["book(id: ID!): Record"] ++
  Overview.ask "type Record" ["id: ID!", "versionstamp: ID!", "value: Book"] ++
  Overview.ask "type Book" ["id: ID!", "versionstamp: ID", "title: String"]

def archiveStore : Memory :=
  (Chronicle.run [.commit ⟨[], [.set ⟨"Book", ⟨"1"⟩⟩ (Row.ofColumns
    [("id", .string "7"), ("versionstamp", .string "old"), ("title", .string "Dune")])]⟩]).memory

def archiveRequest : Request :=
  { source := Overview.ask "" [Overview.ask "book(id: 1)"
      ["id", "versionstamp", Overview.ask "value" ["id", "versionstamp", "title"]]] }

-- What a field of a row has been answered with, if it is a text.
def Visit.told? (v : Visit) : Option (String × String × String) :=
  match v.place.asked, v.answer with
  | some ⟨type, field, .row _, _⟩, .ok (some (.string text)) => some (type, field, text)
  | _, _ => none

theorem Visit.told?_some {v : Visit} {type field text : String} (told : v.told? = some (type, field, text)) :
    ∃ a row, v.place.asked = some a ∧ a.parent = .row row ∧ a.type = type ∧ a.field = field ∧
      v.answer = .ok (some (.string text)) := by
  unfold told? at told
  split at told
  · rename_i asked answer
    cases told
    exact ⟨_, _, asked, rfl, rfl, rfl, answer⟩
  · cases told

theorem archive_rows_keep_keys : ∃ (s : Schema) (w : Watch (Diary Memory) (List (String × Datum))),
    s.Built ∧ s.Queries archiveRequest ∧
    s.watch? Memory.backend.noted archiveRequest ⟨archiveStore, []⟩ = some w ∧
    (Invocation.visitsOf w.seen).filterMap Visit.told? =
      [("Record", "id", "1"), ("Record", "versionstamp", "00000000000000010000"),
        ("Book", "id", "1"), ("Book", "versionstamp", "old"), ("Book", "title", "Dune")] ∧
    ∃ v ∈ Invocation.visitsOf w.seen, ∃ a row, v.place.asked = some a ∧ a.parent = .row row ∧
      a.type = "Book" ∧ a.field = "id" ∧ v.answer = .ok (some (.string "1")) ∧
      ∃ key e, Event.got key (.ok (some e)) ∈ w.run.store.events ∧ archiveStore.get? key = some e ∧
        e.key = key ∧ s.RowForm a.type e key.table row ∧ s.Keyed a e v.answer := by
  have ready : ((Session.build {} archive []).toOption.bind fun s =>
      (archiveRequest.prepare s).toOption.bind fun p =>
      (s.watch? Memory.backend.noted archiveRequest ⟨archiveStore, []⟩).map fun w =>
        (p.operation.kind, (Invocation.visitsOf w.seen).filterMap Visit.told?)) =
      some (.query, [("Record", "id", "1"), ("Record", "versionstamp", "00000000000000010000"),
        ("Book", "id", "1"), ("Book", "versionstamp", "old"), ("Book", "title", "Dune")]) := by
    rw [Session.build_toList]
    simp only [archive, String.toList_append, Overview.toList_ask]
    decide +kernel
  obtain ⟨s, made, ready⟩ := Option.bind_eq_some_iff.mp ready
  obtain ⟨p, prepared, ready⟩ := Option.bind_eq_some_iff.mp ready
  obtain ⟨w, watched, ready⟩ := Option.map_eq_some_iff.mp ready
  obtain ⟨kind, told⟩ := Prod.mk.inj ready
  have built : s.Built := ⟨{}, archive, [], ok_of_toOption made⟩
  have query : s.Queries archiveRequest := by
    intro p' prepared'
    rw [Except.ok.inj (prepared'.symm.trans (ok_of_toOption prepared))]
    exact kind
  have shown : ("Book", "id", "1") ∈ (Invocation.visitsOf w.seen).filterMap Visit.told? := by
    rw [told]
    decide
  obtain ⟨v, member, same⟩ := List.mem_filterMap.mp shown
  obtain ⟨a, row, asked, parent, type, field, answer⟩ := Visit.told?_some same
  exact ⟨s, w, built, query, watched, told, v, member, a, row, asked, parent, type, field, answer,
    rows_keep_keys built query archiveStore watched v member a row asked parent⟩

end RowGraph
