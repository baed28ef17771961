import RowGraph.Proofs.Propagation.Absorption
import RowGraph.Proofs.Propagation.Request
import RowGraph.Proofs.Response.Shown
/-!
Nulls in the data of a response. Main statement: null stands only where the types on the way allow
it, and a position whose type does not allow it has a value, or has failed with an error that is
reported and has gone out to a position that may be null, or to the whole data.
-/

namespace RowGraph

variable {σ α : Type}

-- What is gathered over a list of invocations holds what each of them gives.
theorem Invocation.gathered {f : Invocation → List α} {g : List Invocation → List α}
    (cons : ∀ i rest, g (i :: rest) = f i ++ g rest) {i : Invocation} {seen : List Invocation}
    (member : i ∈ seen) : f i ⊆ g seen := by
  induction seen with
  | nil => cases member
  | cons j rest ih =>
    rw [cons]
    rcases List.mem_cons.mp member with rfl | later
    · exact List.subset_append_left _ _
    · exact List.subset_append_of_subset_right _ (ih later)

-- And with what a position gives in addition to those inside of it, also along a line.
theorem Line.gathered {f : Invocation → List α} {g : List Invocation → List α}
    (cons : ∀ i rest, g (i :: rest) = f i ++ g rest)
    (position : ∀ v inside, g inside ⊆ f (.position v inside)) {seen inside : List Invocation}
    {v : Visit} {around : List Visit} (line : Line seen v around inside) :
    f (.position v inside) ⊆ g seen := by
  induction line with
  | outermost member => exact Invocation.gathered cons member
  | inner _ member ih =>
    exact List.Subset.trans (Invocation.gathered cons member) (List.Subset.trans (position _ _) ih)

theorem Line.mem_visits {seen inside : List Invocation} {v : Visit} {around : List Visit}
    (line : Line seen v around inside) : v ∈ Invocation.visitsOf seen := by
  refine line.gathered (f := Invocation.visits) (fun i rest => by rw [Invocation.visitsOf]) ?_
    List.mem_cons_self
  intro v inside
  rw [Invocation.visits]
  exact List.subset_cons_self _ _

-- An error that has left an invocation was raised in it or inside of it.
theorem Propagates.left_reported {i : Invocation} (propagates : Propagates i) {e : ResponseError}
    (left : i.left? = some e) : e ∈ i.errors := by
  induction propagates with
  | quiet _ _ answer =>
    rw [Invocation.left?, answer] at left
    cases left
  | stops _ _ answer =>
    rw [Invocation.left?, answer] at left
    cases left
  | description => exact List.mem_append_right _ (Option.mem_toList.mpr left)
  | passes meets _ answer _ ih =>
    rw [Invocation.left?, answer] at left
    obtain rfl := Option.some.inj left
    exact meets.reported fun i member left => ih i member left

theorem Line.errors_subset {seen inside : List Invocation} {v : Visit} {around : List Visit}
    (line : Line seen v around inside) :
    Invocation.errors (.position v inside) ⊆ Invocation.errorsOf seen := by
  refine line.gathered (fun i rest => by rw [Invocation.errorsOf]) fun v inside => ?_
  rw [Invocation.errors]
  exact List.subset_append_right _ _

-- What becomes of a position that may not be null: it has a value, or an error that is reported and
-- has gone out to the first position that may be null, or to the whole data.
inductive Stands (response : Response) (v : Visit) (around : List Visit) : Prop where
  | value {d : Datum} : v.answer = .ok (some d) → Stands response v around
  | stopped {e : ResponseError} : v.answer = .error e → e ∈ response.errors →
      Stops e (v :: around) → Stands response v around
  | lost {e : ResponseError} : v.answer = .error e → e ∈ response.errors →
      Escapes e (v :: around) → response.data = .null → Stands response v around

theorem Execution.watch_stands {x : Execution σ} (grounded : x.schema.Grounded)
    (closed : x.schema.catalog.Plain → x.schema.catalog.Closed) {root : TypeDef}
    (known : x.schema.catalog.type? root.name = some root) (nodes : List Node) (store : σ)
    {v : Visit} {around : List Visit} {inside : List Invocation}
    (line : Line (x.watch root nodes store).seen v around inside)
    (strict : v.place.nullable = false) :
    Stands (x.watch root nodes store).response v around := by
  have accounts := x.watch_accounts root nodes store
  have firm := (watch_presents grounded closed known nodes store).firm
  cases answer : v.answer with
  | ok d =>
    cases d with
    | some d => exact .value answer
    | none => exact absurd answer (firm v (line.mem_visits) strict)
  | error e =>
    have left : (Invocation.position v inside).left? = some e := by
      rw [Invocation.left?, answer]
    have reported : e ∈ (x.watch root nodes store).response.errors := by
      refine (accounts.reported ⟨rfl, rfl⟩).symm.subset (List.mem_append_right _ ?_)
      exact line.errors_subset ((line.propagates accounts.propagate).left_reported left)
    rcases line.outwards accounts.propagate answer with stops | escapes
    · exact .stopped answer reported (stops.cons strict answer)
    · have escapes := escapes.cons strict answer
      obtain ⟨i, member, left⟩ := line.left_outermost escapes
      exact .lost answer reported escapes (accounts.lost member left)

theorem nulls_tolerated {s : Schema} (built : s.Built) (b : Backend σ) (request : Request) (store : σ)
    {response : Response} (answered : (s.execute b request store).response = some response) :
    (s.watch? b request store = none ∧ response.data = .null) ∨
    ∃ m root, request.prepare s = .ok m ∧
      (s.catalog.root? m.operation.kind).bind s.catalog.type? = some root ∧
      let x : Execution σ := ⟨s, b, m.operation.variableDefs, request.values⟩
      let w := x.watch root m.nodes store
      w.erase = x.selections root .root [] m.nodes { store } ∧
      (∀ path, response.data.at? path = some .null →
        Tolerates s.catalog false (.named root.name false) m.nodes path) ∧
      ∀ v around inside, Line w.seen v around inside → v.place.nullable = false →
        Stands response v around := by
  cases watched : s.watch? b request store with
  | none => exact .inl ⟨rfl, Schema.execute_refused watched answered⟩
  | some w =>
    obtain ⟨m, root, prepared, rooted, rfl⟩ := Schema.watch?_some watched
    obtain ⟨name, _, found⟩ := Option.bind_eq_some_iff.mp rooted
    have known := Catalog.type?_name found
    rw [Schema.execute_run prepared rooted] at answered
    obtain rfl := Option.some.inj answered
    refine .inr ⟨m, root, prepared, rooted, ?_⟩
    let x : Execution σ := ⟨s, b, m.operation.variableDefs, request.values⟩
    refine ⟨(Records.selections x root .root [] m.nodes { store }).symm, fun path null => ?_,
      fun v around inside line strict => ?_⟩
    · exact x.watch_null built.grounded built.closed known m.nodes store (Datum.nullAt_of_at? null)
    · exact x.watch_stands built.grounded built.closed known m.nodes store line strict

theorem shelf_nulls_tolerated : ∃ (s : Schema) (response : Response), s.Built ∧
    (s.execute Memory.backend titleRequest shelfStore).response = some response ∧
    response.data.at? [.field "book"] = some .null ∧
    ((s.watch? Memory.backend titleRequest shelfStore = none ∧ response.data = .null) ∨
    ∃ m root, titleRequest.prepare s = .ok m ∧
      (s.catalog.root? m.operation.kind).bind s.catalog.type? = some root ∧
      let x : Execution Memory := ⟨s, Memory.backend, m.operation.variableDefs, titleRequest.values⟩
      let w := x.watch root m.nodes shelfStore
      w.erase = x.selections root .root [] m.nodes { store := shelfStore } ∧
      (∀ path, response.data.at? path = some .null →
        Tolerates s.catalog false (.named root.name false) m.nodes path) ∧
      ∀ v around inside, Line w.seen v around inside → v.place.nullable = false →
        Stands response v around) := by
  have ready : ((Session.build {} shelf []).toOption.bind fun s =>
      (s.execute Memory.backend titleRequest shelfStore).response.bind fun r =>
      (r.data.at? [.field "book"]).map Datum.isNull) = some true := by decide +kernel
  obtain ⟨s, made, ready⟩ := Option.bind_eq_some_iff.mp ready
  obtain ⟨response, answered, ready⟩ := Option.bind_eq_some_iff.mp ready
  obtain ⟨d, there, null⟩ := Option.map_eq_some_iff.mp ready
  have built : s.Built := ⟨{}, shelf, [], ok_of_toOption made⟩
  refine ⟨s, response, built, answered, ?_,
    nulls_tolerated built Memory.backend titleRequest shelfStore answered⟩
  rw [there]
  cases d <;> first | rfl | cases null

-- A book with a list of tags that has a hole.
def taggedShelf : String :=
  Overview.ask "type Query" ["book(id: ID!): Book"] ++ Overview.ask "type Book" ["tags: [String!]"]

def taggedStore : Memory :=
  (Memory.empty.commit ⟨[], [.set ⟨"Book", ⟨"1"⟩⟩
    (Row.ofColumns [("tags", .array [.string "a", .null])])]⟩).2

def tagsRequest : Request :=
  { source := Overview.ask "query" [Overview.ask "book(id: 1)" ["tags"]] }

-- A document that declares a describing type of its own, with a question that has no answer.
def redescribed : String :=
  Overview.ask "type Query" ["book(id: ID!): Book"] ++ Overview.ask "type Book" ["tags: [String!]"] ++
    Overview.ask "type __Type" ["pages: Int!"]

def pagesRequest : Request :=
  { source := Overview.ask "query" [Overview.ask "__type(name: \"Book\")" ["pages"]] }

-- The elements of a list of scalars are shown as they are stored, and what a declared describing type
-- asks for is answered by null.
theorem shelf_nulls_shown : (∃ s : Schema, s.Built ∧
    ((s.catalog.type? "Book").bind (·.field? "tags")).map (·.type) =
      some (.list (.named "String" true) false) ∧
    (s.execute Memory.backend tagsRequest taggedStore).response.map
      (fun r => ((r.data.at? [.field "book", .field "tags", .index 1]).map Datum.isNull, r.errors)) =
        some (some true, [])) ∧
    ∃ s : Schema, s.Built ∧
      ((s.catalog.type? "__Type").bind (·.field? "pages")).map (·.type) = some (.named "Int" true) ∧
      (s.execute Memory.backend pagesRequest Memory.empty).response.map
        (fun r => ((r.data.at? [.field "__type", .field "pages"]).map Datum.isNull, r.errors)) =
          some (some true, []) := by
  have tags : (Session.build {} taggedShelf []).toOption.any (fun s => decide (
      ((s.catalog.type? "Book").bind (·.field? "tags")).map (·.type) =
        some (.list (.named "String" true) false) ∧
      (s.execute Memory.backend tagsRequest taggedStore).response.map
        (fun r => ((r.data.at? [.field "book", .field "tags", .index 1]).map Datum.isNull, r.errors)) =
          some (some true, []))) = true := by
    decide +kernel
  have pages : (Session.build {} redescribed []).toOption.any (fun s => decide (
      ((s.catalog.type? "__Type").bind (·.field? "pages")).map (·.type) = some (.named "Int" true) ∧
      (s.execute Memory.backend pagesRequest Memory.empty).response.map
        (fun r => ((r.data.at? [.field "__type", .field "pages"]).map Datum.isNull, r.errors)) =
          some (some true, []))) = true := by
    decide +kernel
  obtain ⟨s, made, tags⟩ := (Option.any_eq_true _ _).mp tags
  obtain ⟨s', made', pages⟩ := (Option.any_eq_true _ _).mp pages
  exact ⟨⟨s, ⟨{}, taggedShelf, [], ok_of_toOption made⟩, of_decide_eq_true tags⟩,
    s', ⟨{}, redescribed, [], ok_of_toOption made'⟩, of_decide_eq_true pages⟩

end RowGraph
