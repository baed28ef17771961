import RowGraph.Proofs.Language.Names
import RowGraph.Proofs.Placement.Ways
import RowGraph.Proofs.Tandem.Framed
import RowGraph.Proofs.Tandem.Unfolded
/-!
An integer and its decimal text are the same id. Ids may be given in either form in requests and in
stored columns that refer to rows. Main statement: clients get the same responses, and the same rows
are read and written; different integers are different ids.
-/

namespace RowGraph

-- Two stores with the same rows, but for the forms of the ids that they refer to.
structure Memory.Alike (s : Schema) (m m' : Memory) : Prop where
  version : m'.version = m.version
  rows : ∀ key, Option.Rel (Entry.Alike s key.table) (m.get? key) (m'.get? key)

namespace Memory

variable {s : Schema} {m m' : Memory}

theorem stamp?_get? (m : Memory) (key : Key) : m.stamp? key = (m.get? key).map Entry.stamp := by
  unfold stamp? get?
  rw [Option.map_map]
  rfl

theorem Alike.stamp? (alike : m.Alike s m') (key : Key) : m'.stamp? key = m.stamp? key := by
  have found := alike.rows key
  rw [stamp?_get?, stamp?_get?]
  generalize m.get? key = e at found ⊢
  generalize m'.get? key = e' at found ⊢
  cases found with
  | none => rfl
  | some same => exact congrArg some same.stamp

-- What is written at a key is the same on both sides; elsewhere rows stay alike.
theorem Alike.written (alike : m.Alike s m') (writes : List Mutation) (stamp : Versionstamp) :
    Memory.Alike s ⟨writes.foldl (apply stamp) m.rows, stamp⟩
      ⟨writes.foldl (apply stamp) m'.rows, stamp⟩ := by
  refine ⟨rfl, fun key => ?_⟩
  have before := alike.rows key
  unfold get? at before ⊢
  rw [get?_foldl_apply, get?_foldl_apply]
  cases Mutation.last? key writes with
  | none => exact before
  | some left => exact Option.rel_refl .refl _

theorem Alike.commit (alike : m.Alike s m') (op : Operation) :
    (m'.commit op).1 = (m.commit op).1 ∧ (m.commit op).2.Alike s (m'.commit op).2 := by
  have holds : m'.holds = m.holds := by
    funext c
    unfold Memory.holds
    rw [alike.stamp?]
  unfold Memory.commit
  rw [holds, alike.version]
  split
  · cases m.version.next with
    | error e => exact ⟨rfl, alike⟩
    | ok stamp => exact ⟨rfl, alike.written op.mutations stamp⟩
  · exact ⟨rfl, alike⟩

theorem Alike.refl (s : Schema) (m : Memory) : m.Alike s m :=
  ⟨rfl, fun _ => Option.rel_refl .refl _⟩

-- Rows that are alike may also be put in.
theorem Alike.insert (alike : m.Alike s m') (key : Key) {row row' : Row}
    (rows : Row.Alike s key.table row row') (stamp version : Versionstamp) :
    Memory.Alike s ⟨m.rows.insert key (row, stamp), version⟩ ⟨m'.rows.insert key (row', stamp), version⟩ := by
  refine ⟨rfl, fun other => ?_⟩
  have before := alike.rows other
  unfold get? at before ⊢
  rw [OrderedMap.get?_insert, OrderedMap.get?_insert]
  split
  · rename_i named
    obtain rfl : other = key := Std.LawfulEqCmp.eq_of_compare named
    exact .some ⟨rfl, rfl, rows⟩
  · exact before

-- Two such stores go through the same calls.
def interchange (s : Schema) : Tandem s Memory.backend.noted Memory.backend.noted where
  level n n' := n.store.Alike s n'.store ∧ n'.events.map Event.call = n.events.map Event.call
  lost _ := False
  get key n n' := by
    rintro ⟨alike, same⟩
    refine .inr ⟨.ok (alike.rows key), alike, ?_⟩
    simp only [Backend.noted, Diary.got, List.map_append, same]
    rfl
  commit op n n' := by
    rintro ⟨alike, same⟩
    obtain ⟨answer, after⟩ := alike.commit op
    refine .inr ⟨?_, after, ?_⟩
    · change Agree _ _ (n.store.commit op).1 (n'.store.commit op).1
      rw [answer]
      exact .refl (fun _ => trivial) (fun _ => rfl) _
    · simp only [Backend.noted, Diary.committed, List.map_append, same]
      rfl
  lost_get _ _ := False.elim
  lost_commit _ _ := False.elim

end Memory

namespace RowId

-- The text of a number below zero starts with a sign, and no other does.
theorem unsigned (i j : Nat) : toString i ≠ "-" ++ toString j := by
  intro same
  have member : '-' ∈ (toString i).toList := by
    rw [same, String.toList_append]
    exact List.mem_append_left _ (by decide)
  rw [Nat.toString_eq_ofList_toDigits, String.toList_ofList] at member
  cases Nat.isDigit_of_mem_toDigits (by decide) (by decide) member

theorem decimal_injective {i j : Int} (same : toString i = toString j) : i = j := by
  cases i with
  | ofNat i =>
    cases j with
    | ofNat j => exact congrArg Int.ofNat (Segment.index_inj same)
    | negSucc j => exact absurd same (unsigned i (j + 1))
  | negSucc i =>
    cases j with
    | ofNat j => exact absurd same.symm (unsigned j (i + 1))
    | negSucc j =>
      have rest : toString (i + 1) = toString (j + 1) := by
        have texts : "-".toList ++ (toString (i + 1)).toList = "-".toList ++ (toString (j + 1)).toList := by
          rw [← String.toList_append, ← String.toList_append]
          exact congrArg String.toList same
        exact String.toList_inj.mp (List.append_cancel_left texts)
      rw [Nat.succ.inj (Segment.index_inj rest)]

theorem ofInt_injective {n n' : Int64} (same : ofInt n = ofInt n') : n = n' :=
  Int64.toInt_inj.mp (decimal_injective (congrArg text same))

end RowId

-- Requests in which ids have other forms, on a store in which they have, come to the same calls of the
-- store, with the same keys and the same rows, and clients are told the same. An integer names the row
-- that its text names, and no other integer does.
theorem ids_interchangeable {s : Schema} (built : s.Built) :
    (∀ {requests requests' : List Request}, List.Forall₂ (Request.Rewritten s) requests requests' →
      ∀ {m m' : Memory}, m.Alike s m' →
        let served := s.serve Memory.backend.noted requests ⟨m, []⟩
        let served' := s.serve Memory.backend.noted requests' ⟨m', []⟩
        (served.1 = (s.serve Memory.backend requests m).1 ∧
          served'.1 = (s.serve Memory.backend requests' m').1) ∧
        List.Forall₂ (Answer.Like False) served.1 served'.1 ∧
        served'.2.events.map Event.call = served.2.events.map Event.call ∧
        served.2.store.Alike s served'.2.store) ∧
    ∀ n n' : Int64, (Resolve.idOfDatum? (.int n) = some (.ofInt n) ∧
        Resolve.idOfDatum? (.string (toString n.toInt)) = some (.ofInt n) ∧
        RowId.ofValue? (.int n) = some (.ofInt n) ∧
        RowId.ofValue? (.string (toString n.toInt)) = some (.ofInt n)) ∧
      ∀ table table', (⟨table, .ofInt n⟩ : Key) = ⟨table', .ofInt n'⟩ → n = n' := by
  refine ⟨fun {requests requests'} rewritten {m m'} alike => ?_, fun n n' => ⟨⟨rfl, rfl, rfl, rfl⟩, ?_⟩⟩
  · have plain (requests : List Request) (m : Memory) :
        (s.serve Memory.backend.noted requests ⟨m, []⟩).1 = (s.serve Memory.backend requests m).1 :=
      (Backend.Twin.noted Memory.backend).serve built.grounded requests rfl
    have each : List.Forall₂ (Request.Alike s False) requests requests' :=
      rewritten.imp fun _ _ one => one.alike built.grounded
    have level : (Memory.interchange s).level ⟨m, []⟩ ⟨m', []⟩ := ⟨alike, rfl⟩
    rcases (Memory.interchange s).serve_along built.grounded each level with
      absurd | ⟨answers, after, calls⟩
    · exact absurd.elim
    · exact ⟨⟨plain requests m, plain requests' m'⟩, answers, calls, after⟩
  · intro table table' same
    exact RowId.ofInt_injective (Key.mk.inj same).2

-- A book with a sequel.
def saga : String :=
  Overview.ask "type Query" ["book(id: ID!): Book"] ++
  Overview.ask "type Book" ["title: String", "next: Book"] ++
  Overview.ask "type Mutation" ["write(input: Write): ID"] ++
  Overview.ask "input Write" ["add: New @create(table: \"Book\")"] ++
  Overview.ask "input New" ["id: ID"]

def sagaStore (next : Value) : Memory :=
  ⟨Memory.empty.rows.insert ⟨"Book", ⟨"1"⟩⟩ (Row.set (Row.ofColumns []) "next" next, .ofCounter 1), .ofCounter 1⟩

def nextRequest (id : String) : Request :=
  { source := Overview.ask "query"
      [Overview.ask ("book(id: " ++ id ++ ")") [Overview.ask "next" ["title"]]] }

def addRequestOf (id : String) : Request :=
  { source := Overview.ask "mutation" ["write(input: \x7badd: \x7bid: " ++ id ++ "\x7d\x7d)"] }

-- What these requests read as, with their parts at any places.
def nextQuery (id : Literal) (place : Nat → Location) : Query :=
  ⟨[⟨.query, none, [], [], place 0, [.field ⟨none, "book", [⟨"id", id, place 1, place 2⟩], [], place 3⟩
    (place 4) [.field ⟨none, "next", [], [], place 5⟩ (place 6)
      [.field ⟨none, "title", [], [], place 7⟩ (place 8) []]]], place 9⟩], []⟩

def addQuery (id : Literal) (place : Nat → Location) : Query :=
  ⟨[⟨.mutation, none, [], [], place 0, [.field ⟨none, "write",
    [⟨"input", .object [("add", .object [("id", id)])], place 1, place 2⟩], [], place 3⟩ (place 4) []],
    place 5⟩], []⟩

def Query.nextId? (q : Query) : Option Literal :=
  match q with
  | ⟨[⟨.query, none, [], [], _, [.field ⟨none, book, [⟨id, value, _, _⟩], [], _⟩ _
      [.field ⟨none, next, [], [], _⟩ _ [.field ⟨none, title, [], [], _⟩ _ []]]], _⟩], []⟩ =>
    if book = "book" ∧ id = "id" ∧ next = "next" ∧ title = "title" then some value else none
  | _ => none

def Query.addId? (q : Query) : Option Literal :=
  match q with
  | ⟨[⟨.mutation, none, [], [], _, [.field ⟨none, write, [⟨input, .object [(add, .object [(id, value)])],
      _, _⟩], [], _⟩ _ []], _⟩], []⟩ =>
    if write = "write" ∧ input = "input" ∧ add = "add" ∧ id = "id" then some value else none
  | _ => none

theorem Query.nextId?_some {q : Query} {l : Literal} (asked : q.nextId? = some l) :
    ∃ place, q = nextQuery l place := by
  unfold nextId? at asked
  split at asked
  · rename_i p₀ book id value p₁ p₂ p₃ p₄ next p₅ p₆ title p₇ p₈ p₉
    split at asked
    · rename_i names
      obtain ⟨rfl, rfl, rfl, rfl⟩ := names
      obtain rfl := Option.some.inj asked
      exact ⟨fun i => [p₀, p₁, p₂, p₃, p₄, p₅, p₆, p₇, p₈, p₉].getD i .start, rfl⟩
    · cases asked
  · cases asked

theorem Query.addId?_some {q : Query} {l : Literal} (asked : q.addId? = some l) :
    ∃ place, q = addQuery l place := by
  unfold addId? at asked
  split at asked
  · rename_i p₀ write input add id value p₁ p₂ p₃ p₄ p₅
    split at asked
    · rename_i names
      obtain ⟨rfl, rfl, rfl, rfl⟩ := names
      obtain rfl := Option.some.inj asked
      exact ⟨fun i => [p₀, p₁, p₂, p₃, p₄, p₅].getD i .start, rfl⟩
    · cases asked
  · cases asked

def Literal.isInt (n : Int64) : Literal → Bool
  | .number (.int k) => k = n
  | _ => false

def Literal.isText (text : String) : Literal → Bool
  | .string t => t = text
  | _ => false

theorem Literal.isInt_eq {n : Int64} {l : Literal} (shown : l.isInt n = true) : l = .number (.int n) := by
  unfold isInt at shown
  split at shown
  · rw [of_decide_eq_true shown]
  · cases shown

theorem Literal.isText_eq {text : String} {l : Literal} (shown : l.isText text = true) :
    l = .string text := by
  unfold isText at shown
  split at shown
  · rw [of_decide_eq_true shown]
  · cases shown

-- Ids are rewritten in the text alone.
def Rewriting.textual (q q' : Query) : Rewriting := ⟨q, q', [], [], fun _ => .plain, fun _ => False⟩

theorem Request.rewritten_texts {s : Schema} (view : Query → Option Literal) (n : Int64) {r r' : Request}
    (plain : r.values = [] ∧ r'.values = [] ∧ r'.operation = r.operation)
    (keeps : ∀ q q', view q = some (.number (.int n)) → view q' = some (.string (toString n.toInt)) →
      (Rewriting.textual q q').Keeps s)
    (read : ((Query.read? r.source).bind view).any (Literal.isInt n) = true)
    (read' : ((Query.read? r'.source).bind view).any (Literal.isText (toString n.toInt)) = true) :
    Request.Rewritten s r r' := by
  obtain ⟨l, found, number⟩ := (Option.any_eq_true _ _).mp read
  obtain ⟨l', found', text⟩ := (Option.any_eq_true _ _).mp read'
  obtain rfl := Literal.isInt_eq number
  obtain rfl := Literal.isText_eq text
  obtain ⟨q, read, view⟩ := Option.bind_eq_some_iff.mp found
  obtain ⟨q', read', view'⟩ := Option.bind_eq_some_iff.mp found'
  exact .ids _ (keeps q q' view view') read read' plain.1 plain.2.1 plain.2.2

section

variable {s : Schema} (n : Int64) (place place' : Nat → Location)

theorem nextQuery_keeps {shape : FieldShape} {table : String}
    (site : s.site? ((s.catalog.root? .query).bind s.catalog.type?) "book" = some (.root "id" shape))
    (kind : shape.kind = .reference table)
    (ids : ∀ t d, (s.catalog.root? .query).bind s.catalog.type? = some t →
      t.argument? "book" "id" = some d → d.type.name = "ID") :
    (Rewriting.textual (nextQuery (.number (.int n)) place)
      (nextQuery (.string (toString n.toInt)) place')).Keeps s := by
  have id : s.SiteRewritten (fun _ => .plain) ((s.catalog.root? .query).bind s.catalog.type?) "book"
      ⟨"id", .number (.int n), place 1, place 2⟩ ⟨"id", .string (toString n.toInt), place' 1, place' 2⟩ :=
    ⟨.id, .reads site (.id kind) ids, rfl, .toText n⟩
  refine ⟨.cons ⟨rfl, rfl, .nil, .nil, ?_, rfl⟩ .nil, .nil, .nil⟩
  refine .cons (.field ⟨rfl, rfl, .cons id .nil, .nil⟩ (.cons (.field ⟨rfl, rfl, .nil, .nil⟩ ?_ rfl) .nil)
    rfl) .nil
  exact .cons (.field ⟨rfl, rfl, .nil, .nil⟩ .nil rfl) .nil

theorem addQuery_keeps {plan : MutationPlan} {b : Binding}
    (site : s.site? ((s.catalog.root? .mutation).bind s.catalog.type?) "write" = some (.mutation plan))
    (named : plan.argument = "input") (bound : b ∈ plan.bindings) (field : b.field = "add")
    (inputs : ∀ t d, (s.catalog.root? .mutation).bind s.catalog.type? = some t →
      t.argument? "write" "input" = some d → d.type.name = "Write")
    (items : ((s.catalog.inputFields "Write").bind fun fs => fs.find? fun f => f.name = "add").map
      (·.type.name) = some "New")
    (ids : ((s.catalog.inputFields "New").bind fun fs => fs.find? fun f => f.name = idColumn).map
      (·.type.name) = some "ID") :
    (Rewriting.textual (addQuery (.number (.int n)) place)
      (addQuery (.string (toString n.toInt)) place')).Keeps s := by
  let forms : String → Form := fun name => if name = "add" then .ofItems else .plain
  have reads : (Resolver.mutation plan).Reads "input" (.object forms) := by
    rw [← named]
    refine .input fun name => ?_
    by_cases own : name = "add"
    · exact .inr ⟨⟨b, bound, field.trans own.symm⟩, if_pos own⟩
    · exact .inl (if_neg own)
  have itemFits {type : TypeExpr} (new : type.name = "New") : Form.ofItems.Fits s.catalog type := by
    intro fields name d known found
    rw [new] at known
    dsimp only
    split
    · rename_i column
      subst column
      rw [known, Option.bind_some, found] at ids
      exact Option.some.inj ids
    · trivial
  have fits : ∀ t d, (s.catalog.root? .mutation).bind s.catalog.type? = some t →
      t.argument? "write" "input" = some d → (Form.object forms).Fits s.catalog d.type := by
    intro t d type declared fields name f known found
    rw [inputs t d type declared] at known
    change Form.Fits s.catalog (if name = "add" then .ofItems else .plain) f.type
    split
    · rename_i own
      subst own
      rw [known, Option.bind_some, found] at items
      exact itemFits (Option.some.inj items)
    · trivial
  have input : s.SiteRewritten (fun _ => .plain) ((s.catalog.root? .mutation).bind s.catalog.type?) "write"
      ⟨"input", .object [("add", .object [("id", .number (.int n))])], place 1, place 2⟩
      ⟨"input", .object [("add", .object [("id", .string (toString n.toInt))])], place' 1, place' 2⟩ :=
    ⟨_, .reads site reads fits, rfl, .object (.cons (.object (.cons (.toText n) .nil)) .nil)⟩
  refine ⟨.cons ⟨rfl, rfl, .nil, .nil, ?_, rfl⟩ .nil, .nil, .nil⟩
  exact .cons (.field ⟨rfl, rfl, .cons input .nil, .nil⟩ .nil rfl) .nil

end

-- Ids in both requests and in the column that refers to the second book.
theorem saga_ids_interchangeable : ∃ s : Schema, s.Built ∧ s.Hookless ∧
    let requests := [addRequestOf "2", nextRequest "1"]
    let requests' := [addRequestOf "\"2\"", nextRequest "\"1\""]
    List.Forall₂ (Request.Rewritten s) requests requests' ∧
    (sagaStore (.int 2)).Alike s (sagaStore (.string "2")) ∧
    let served := s.serve Memory.backend.noted requests ⟨sagaStore (.int 2), []⟩
    let served' := s.serve Memory.backend.noted requests' ⟨sagaStore (.string "2"), []⟩
    served.2.keys = [⟨"Book", ⟨"1"⟩⟩, ⟨"Book", ⟨"2"⟩⟩] ∧
    List.Forall₂ (Answer.Like False) served.1 served'.1 ∧
    served'.2.events.map Event.call = served.2.events.map Event.call := by
  let shape : FieldShape := ⟨.reference "Book", false, false⟩
  let plan : MutationPlan := ⟨"input", [⟨"add", .create, "Book"⟩], .stamp⟩
  have ready : (Session.build {} saga []).toOption.any (fun s => decide (
      s.site? ((s.catalog.root? .query).bind s.catalog.type?) "book" = some (.root "id" shape) ∧
      (((s.catalog.root? .query).bind s.catalog.type?).bind fun t => t.argument? "book" "id").map
        (·.type.name) = some "ID" ∧
      s.site? ((s.catalog.root? .mutation).bind s.catalog.type?) "write" = some (.mutation plan) ∧
      (((s.catalog.root? .mutation).bind s.catalog.type?).bind fun t => t.argument? "write" "input").map
        (·.type.name) = some "Write" ∧
      ((s.catalog.inputFields "Write").bind fun fs => fs.find? fun f => f.name = "add").map
        (·.type.name) = some "New" ∧
      ((s.catalog.inputFields "New").bind fun fs => fs.find? fun f => f.name = idColumn).map
        (·.type.name) = some "ID" ∧
      FieldMap.get? s.resolvers "Book" "next" = some (.reference "next" shape) ∧
      (s.serve Memory.backend.noted [addRequestOf "2", nextRequest "1"]
        ⟨sagaStore (.int 2), []⟩).2.keys = [⟨"Book", ⟨"1"⟩⟩, ⟨"Book", ⟨"2"⟩⟩])) = true := by
    rw [Session.build_toList]
    simp only [saga, String.toList_append, Overview.toList_ask]
    decide +kernel
  obtain ⟨s, made, ready⟩ := (Option.any_eq_true _ _).mp ready
  obtain ⟨book, id, write, input, add, itemId, next, keys⟩ := of_decide_eq_true ready
  have accepted := ok_of_toOption made
  have built : s.Built := ⟨{}, saga, [], accepted⟩
  have declared {on : Option TypeDef} {field argument type : String}
      (named : (on.bind fun t => t.argument? field argument).map (·.type.name) = some type) (t : TypeDef)
      (d : InputDef) (known : on = some t) (found : t.argument? field argument = some d) :
      d.type.name = type := by
    subst known
    rw [Option.bind_some, found] at named
    exact Option.some.inj named
  have asked : Request.Rewritten s (nextRequest "1") (nextRequest "\"1\"") := by
    refine Request.rewritten_texts Query.nextId? 1 ⟨rfl, rfl, rfl⟩ (fun q q' asks asks' => ?_)
      (by decide +kernel) (by decide +kernel)
    obtain ⟨place, rfl⟩ := Query.nextId?_some asks
    obtain ⟨place', rfl⟩ := Query.nextId?_some asks'
    exact nextQuery_keeps 1 place place' book rfl (declared id)
  have added : Request.Rewritten s (addRequestOf "2") (addRequestOf "\"2\"") := by
    refine Request.rewritten_texts Query.addId? 2 ⟨rfl, rfl, rfl⟩ (fun q q' asks asks' => ?_)
      (by decide +kernel) (by decide +kernel)
    obtain ⟨place, rfl⟩ := Query.addId?_some asks
    obtain ⟨place', rfl⟩ := Query.addId?_some asks'
    exact addQuery_keeps 2 place place' write rfl List.mem_cons_self rfl (declared input) add itemId
  have alike : (sagaStore (.int 2)).Alike s (sagaStore (.string "2")) := by
    refine (Memory.Alike.refl s Memory.empty).insert ⟨"Book", ⟨"1"⟩⟩ (fun column => ?_) _ _
    rw [Row.column?_set, Row.column?_set]
    split
    · rename_i own
      subst own
      exact .one next rfl (.text 2)
    · exact .same _
  have each : List.Forall₂ (Request.Rewritten s) [addRequestOf "2", nextRequest "1"]
      [addRequestOf "\"2\"", nextRequest "\"1\""] := .cons added (.cons asked .nil)
  obtain ⟨_, answers, calls, _⟩ := (ids_interchangeable built).1 each alike
  exact ⟨s, built, Schema.hookless_of_build accepted, each, alike, keys, answers, calls⟩

-- Two lookups under one key, a lookup by an argument that is declared twice, and one in a fragment that
-- is met inside the description of the schema too.
def pairRequest (first second : String) : Request :=
  { source := Overview.ask "query" [Overview.ask ("a: book(id: " ++ first ++ ")") ["title"],
      Overview.ask ("a: book(id: " ++ second ++ ")") ["title"]] }

def oddRequest (id : String) : Request :=
  { source := Overview.ask "query" [Overview.ask ("odd(id: " ++ id ++ ")") ["title"]] }

def describedRequest (id : String) : Request :=
  { source := Overview.ask "query" ["...Both", Overview.ask "__type(name: \"Book\")" ["...Both"]] ++
      Overview.ask "fragment Both on __Type"
        [Overview.ask ("fields(includeDeprecated: " ++ id ++ ")") ["title"]] }

def oddLookups : String :=
  Overview.ask "schema" ["query: __Type"] ++
  Overview.ask "type __Type" ["book(id: ID!): Book", "odd(id: ID!, id: Int): Book",
    "fields(includeDeprecated: ID!): Book"] ++
  Overview.ask "type Book" ["title: String"]

def Schema.told (s : Schema) (r : Request) : Option (Bool × List String) × List Key :=
  let a := s.execute Memory.backend.noted r ⟨shelfStore, []⟩
  (a.response.map fun response => (response.data.isNull, response.errors.map (·.message)), a.store.keys)

-- Fields with one key have to be written alike; of two declarations the last one counts, though a row
-- is looked up by the first; and a question about the schema names the value that it does not take.
theorem ids_told_apart : ∃ s : Schema, s.Built ∧ s.Hookless ∧
    let shape : FieldShape := ⟨.reference "Book", false, false⟩
    let key : Key := ⟨"Book", ⟨"1"⟩⟩
    ["book", "odd", "fields"].map (s.site? ((s.catalog.root? .query).bind s.catalog.type?)) =
      [some (.root "id" shape), some (.root "id" shape), some (.root "includeDeprecated" shape)] ∧
    [pairRequest "1" "1", oddRequest "1", describedRequest "1"].map s.told =
      [(some (false, []), [key, key]), (some (false, []), [key]),
        (some (false, ["Expected input type \"Boolean\", found 1."]), [key])] ∧
    [pairRequest "1" "\"1\"", oddRequest "\"1\"", describedRequest "\"1\""].map s.told =
      [(some (true, ["Fields \"id\" conflict because they have differing arguments. " ++
          "Use different aliases on the fields to fetch both if this was intentional."]), []),
        (some (true, ["Invalid value for argument \"id\", expected type \"Int\""]), []),
        (some (false, ["Expected input type \"Boolean\", found \"1\"."]), [key])] := by
  have ready : (Session.build {} oddLookups []).toOption.any (fun s => decide (
      let shape : FieldShape := ⟨.reference "Book", false, false⟩
      let key : Key := ⟨"Book", ⟨"1"⟩⟩
      ["book", "odd", "fields"].map (s.site? ((s.catalog.root? .query).bind s.catalog.type?)) =
        [some (.root "id" shape), some (.root "id" shape), some (.root "includeDeprecated" shape)] ∧
      [pairRequest "1" "1", oddRequest "1", describedRequest "1"].map s.told =
        [(some (false, []), [key, key]), (some (false, []), [key]),
          (some (false, ["Expected input type \"Boolean\", found 1."]), [key])] ∧
      [pairRequest "1" "\"1\"", oddRequest "\"1\"", describedRequest "\"1\""].map s.told =
        [(some (true, ["Fields \"id\" conflict because they have differing arguments. " ++
            "Use different aliases on the fields to fetch both if this was intentional."]), []),
          (some (true, ["Invalid value for argument \"id\", expected type \"Int\""]), []),
          (some (false, ["Expected input type \"Boolean\", found \"1\"."]), [key])])) = true := by
    rw [Session.build_toList]
    simp only [oddLookups, String.toList_append, Overview.toList_ask]
    decide +kernel
  obtain ⟨s, made, answers⟩ := (Option.any_eq_true _ _).mp ready
  have accepted := ok_of_toOption made
  exact ⟨s, ⟨{}, oddLookups, [], accepted⟩, Schema.hookless_of_build accepted, of_decide_eq_true answers⟩

end RowGraph
