import RowGraph.Execution.Overview
import RowGraph.Execution.Request
import RowGraph.Proofs.Propagation.Account
import RowGraph.Proofs.Propagation.Delivery
/-!
Where errors end. The error of a position goes outwards through positions that may not be null, up
to the first that may, or out of the response altogether. Main statement: every error of a request
is reported once, at the position where it was raised, and stops where it has to.
-/

namespace RowGraph

variable {σ : Type}

-- A position with those around it, from the inside out, and with what is inside of it.
inductive Line (seen : List Invocation) : Visit → List Visit → List Invocation → Prop where
  | outermost {v : Visit} {inside : List Invocation} : .position v inside ∈ seen →
      Line seen v [] inside
  | inner {u v : Visit} {around : List Visit} {inside within : List Invocation} :
      Line seen u around inside → .position v within ∈ inside → Line seen v (u :: around) within

-- An error leaves positions that may not be null.
def Escapes (e : ResponseError) (line : List Visit) : Prop :=
  ∀ v ∈ line, v.place.nullable = false ∧ v.answer = .error e

-- It is stopped at the first position that may be null, which is null then.
def Stops (e : ResponseError) (line : List Visit) : Prop :=
  ∃ between stop outer, line = between ++ stop :: outer ∧ Escapes e between ∧
    stop.place.nullable = true ∧ stop.answer = .ok none

-- An error left a description among invocations, or inside of a position whose line it has left.
def EscapesDescription (e : ResponseError) (seen : List Invocation) : Prop :=
  ∃ stopped, .description stopped (some e) ∈ seen ∨
    ∃ v around inside, Line seen v around inside ∧ .description stopped (some e) ∈ inside ∧
      Escapes e (v :: around)

theorem Escapes.cons {e : ResponseError} {v : Visit} {around : List Visit}
    (nonNull : v.place.nullable = false) (answer : v.answer = .error e) (rest : Escapes e around) :
    Escapes e (v :: around) := by
  intro u member
  rcases List.mem_cons.mp member with rfl | old
  · exact ⟨nonNull, answer⟩
  · exact rest u old

theorem Stops.cons {e : ResponseError} {v : Visit} {around : List Visit}
    (nonNull : v.place.nullable = false) (answer : v.answer = .error e) (rest : Stops e around) :
    Stops e (v :: around) := by
  obtain ⟨between, stop, outer, rfl, escapes, nullable, null⟩ := rest
  exact ⟨v :: between, stop, outer, rfl, escapes.cons nonNull answer, nullable, null⟩

theorem Quiet.answer {seen : List Invocation} (quiet : Quiet seen) {v : Visit}
    {inside : List Invocation} (member : .position v inside ∈ seen) {e : ResponseError} :
    v.answer ≠ .error e := by
  intro failed
  have left := quiet _ member
  rw [Invocation.left?, failed] at left
  cases left

namespace Line

variable {seen inside : List Invocation} {v : Visit} {around : List Visit}

-- What holds of invocations and of all inside of them holds along every line.
theorem keeps {P : Invocation → Prop} (all : ∀ i ∈ seen, P i)
    (within : ∀ v inside, P (.position v inside) → ∀ i ∈ inside, P i)
    (line : Line seen v around inside) : P (.position v inside) := by
  induction line with
  | outermost member => exact all _ member
  | inner outer member ih => exact within _ _ ih _ member

theorem propagates (all : ∀ i ∈ seen, Propagates i) (line : Line seen v around inside) :
    Propagates (.position v inside) := by
  refine line.keeps all fun v inside one => ?_
  cases one with
  | quiet _ _ _ rest => exact rest
  | stops _ _ _ rest => exact rest
  | passes _ _ _ rest => exact rest

theorem distributes (all : ∀ i ∈ seen, Distributes i) (line : Line seen v around inside) :
    Distributes (.position v inside) := by
  refine line.keeps all fun v inside one => ?_
  cases one with
  | position _ _ rest => exact rest

theorem outwards (all : ∀ i ∈ seen, Propagates i) (line : Line seen v around inside)
    {e : ResponseError} (left : v.answer = .error e) : Stops e around ∨ Escapes e around := by
  induction line with
  | outermost member => exact .inr fun _ absurd => nomatch absurd
  | @inner u v around inside within outer member ih =>
    -- What is around has met this error and no other.
    have met {e' : ResponseError} (meets : Meets u inside e') : e' = e := by
      cases meets with
      | raised _ _ quiet => exact absurd left (quiet.answer member)
      | @passed before last _ _ split quiet passed =>
        rw [split] at member
        rcases List.mem_append.mp member with early | late
        · exact absurd left (quiet.answer early)
        · rw [← List.mem_singleton.mp late, Invocation.left?, left] at passed
          exact (Option.some.inj passed).symm
    cases outer.propagates all with
    | quiet _ quiet _ _ => exact absurd left (quiet.answer member)
    | stops meets nullable null _ =>
      obtain rfl := met meets
      refine .inl ⟨[], u, around, rfl, ?_, nullable, null⟩
      exact fun _ absurd => nomatch absurd
    | passes meets nonNull answer _ =>
      obtain rfl := met meets
      exact (ih answer).imp (.cons nonNull answer) (.cons nonNull answer)

-- The error that was raised at a position has its path, and ends where it has to.
theorem ofRaised (all : ∀ i ∈ seen, Propagates i) (line : Line seen v around inside)
    {e : ResponseError} (raised : v.raised = some e) :
    (Exec.located v.place.path e).path = v.place.path ∧
      (Stops (Exec.located v.place.path e) (v :: around) ∨
        Escapes (Exec.located v.place.path e) (v :: around)) := by
  have met {e' : ResponseError} (meets : Meets v inside e') :
      e' = Exec.located v.place.path e ∧ (Exec.located v.place.path e).path = v.place.path := by
    cases meets with
    | @raised e'' raised' placed _ =>
      obtain rfl : e'' = e := Option.some.inj (raised'.symm.trans raised)
      refine ⟨rfl, ?_⟩
      rw [Exec.located_path]
      split
      · rfl
      · exact placed.resolve_left ‹_›
    | passed none => cases raised.symm.trans none
  cases line.propagates all with
  | quiet none => cases raised.symm.trans none
  | stops meets nullable null _ =>
    obtain ⟨rfl, path⟩ := met meets
    refine ⟨path, .inl ⟨[], v, around, rfl, ?_, nullable, null⟩⟩
    exact fun _ absurd => nomatch absurd
  | passes meets nonNull answer _ =>
    obtain ⟨rfl, path⟩ := met meets
    exact ⟨path, (line.outwards all answer).imp (.cons nonNull answer) (.cons nonNull answer)⟩

theorem nonNull_of_left (propagates : Propagates (.position v inside)) {e : ResponseError}
    (left : v.answer = .error e) : v.place.nullable = false := by
  cases propagates with
  | quiet _ _ answer => cases answer.symm.trans left
  | stops _ _ answer => cases answer.symm.trans left
  | passes _ nonNull _ _ => exact nonNull

-- The error that left a position was raised at one inside of it, or in the description.
theorem source {i : Invocation} (propagates : Propagates i) (same : i = .position v inside)
    (line : Line seen v around inside) {e : ResponseError} (escapes : Escapes e (v :: around)) :
    (∃ u outer within e', Line seen u outer within ∧ u.raised = some e' ∧
      Exec.located u.place.path e' = e ∧ Escapes e (u :: outer)) ∨ EscapesDescription e seen := by
  have failed : v.answer = .error e := (escapes v List.mem_cons_self).2
  induction propagates generalizing v inside around with
  | quiet _ _ answer =>
    cases same
    cases answer.symm.trans failed
  | stops _ _ answer =>
    cases same
    cases answer.symm.trans failed
  | description => cases same
  | @passes u inside e' meets _ answer rest ih =>
    cases same
    obtain rfl : e' = e := Except.error.inj (answer.symm.trans failed)
    cases meets with
    | raised raised _ _ => exact .inl ⟨_, around, _, _, line, raised, rfl, escapes⟩
    | @passed before last _ _ split _ left =>
      have member : last ∈ inside := by
        rw [split]
        exact List.mem_append_right _ List.mem_cons_self
      cases last with
      | description stopped left' =>
        obtain rfl : left' = some e' := left
        exact .inr ⟨stopped, .inr ⟨_, around, inside, line, member, escapes⟩⟩
      | position w within =>
        have leaves : w.answer = .error e' := by
          rw [Invocation.left?] at left
          split at left
          · cases left
          · rename_i e'' answer'
            rw [answer', Option.some.inj left]
        have further := escapes.cons (nonNull_of_left (rest _ member) leaves) leaves
        exact ih _ member rfl (.inner line member) further leaves

theorem left_outermost (line : Line seen v around inside) {e : ResponseError}
    (escapes : Escapes e (v :: around)) : ∃ i ∈ seen, i.left? = some e := by
  induction line with
  | @outermost v inside member =>
    refine ⟨_, member, ?_⟩
    rw [Invocation.left?, (escapes v List.mem_cons_self).2]
  | inner outer member ih =>
    exact ih fun u member => escapes u (List.mem_cons_of_mem _ member)

end Line

-- The arguments of a field are read where its selection stands, so an error from those of an
-- outermost field belongs to no position.
def Watch.loose (w : Watch σ α) : List ResponseError :=
  match w.result with
  | .error (.raised e) => [e]
  | _ => []

-- What a response makes of the errors that were raised.
structure Propagated (w : Watch σ (List (String × Datum))) (response : Response) : Prop where
  -- None is lost, none is added and none is reported twice.
  reported : response.errors.Perm (w.loose ++ Invocation.errorsOf w.seen)
  raised : ∀ v around inside e, Line w.seen v around inside → v.raised = some e →
    (Exec.located v.place.path e).path = v.place.path ∧
      (Stops (Exec.located v.place.path e) (v :: around) ∨
        Escapes (Exec.located v.place.path e) (v :: around) ∧ response.data = .null)
  loose : ∀ e ∈ w.loose, e.path = [] ∧ response.data = .null
  null : response.data = .null → w.loose ≠ [] ∨
    (∃ v around inside e, Line w.seen v around inside ∧ v.raised = some e ∧
      Escapes (Exec.located v.place.path e) (v :: around)) ∨
    ∃ e, EscapesDescription e w.seen
  delivered : ∀ v around inside, Line w.seen v around inside → Delivered v.handed inside
  marked : ∀ v around inside e, Line w.seen v around inside → v.mark = some (some e) →
    v.raised = some e

namespace Execution

theorem watch_accounts (x : Execution σ) (root : TypeDef) (nodes : List Node) (store : σ) :
    Accounts [] { store } (x.watch root nodes store) :=
  (accounts_law x).ofSelections nodes [] { store } trivial fun _ _ absurd => nomatch absurd

theorem watch_distributes {x : Execution σ} (grounded : x.schema.Grounded) {root : TypeDef}
    (known : x.schema.catalog.type? root.name = some root) (nodes : List Node) (store : σ) :
    ∀ i ∈ (x.watch root nodes store).seen, Distributes i :=
  ((delivery_law grounded).ofSelections nodes [] { store } known List.nodup_nil
    fun _ _ _ absurd => nomatch absurd).distributes

end Execution

theorem Propagates.escaped {before : List Invocation} {last : Invocation} {e : ResponseError}
    (propagates : Propagates last) (left : last.left? = some e) :
    (∃ v around inside e', Line (before ++ [last]) v around inside ∧ v.raised = some e' ∧
      Escapes (Exec.located v.place.path e') (v :: around)) ∨
    EscapesDescription e (before ++ [last]) := by
  have member : last ∈ before ++ [last] := List.mem_append_right _ List.mem_cons_self
  cases last with
  | description stopped left' =>
    obtain rfl : left' = some e := left
    exact .inr ⟨stopped, .inl member⟩
  | position v inside =>
    have answer : v.answer = .error e := by
      rw [Invocation.left?] at left
      split at left
      · cases left
      · rename_i answer
        rw [answer, Option.some.inj left]
    have escapes : Escapes e [v] := by
      intro u member
      rw [List.mem_singleton.mp member]
      exact ⟨Line.nonNull_of_left propagates answer, answer⟩
    refine (Line.source propagates rfl (.outermost member) escapes).imp_left ?_
    rintro ⟨u, outer, within, e', line, raised, rfl, escapes⟩
    exact ⟨u, outer, within, e', line, raised, escapes⟩

namespace Accounts

variable {r : Run σ} {w : Watch σ (List (String × Datum))}

theorem located_nil (e : ResponseError) : Exec.located [] e = e := by
  unfold Exec.located
  split
  · rename_i unplaced
    rw [← List.isEmpty_iff.mp unplaced]
  · rfl

theorem reported (accounts : Accounts [] r w) (start : r.caught = [] ∧ r.absorbed = []) :
    w.response.errors.Perm (w.loose ++ Invocation.errorsOf w.seen) := by
  have errors := accounts.errors
  rw [start.1, start.2] at errors
  unfold Watch.response Watch.loose
  cases result : w.result with
  | ok results =>
    rw [result] at errors
    exact errors
  | error fault =>
    rw [result] at errors
    cases fault with
    | raised e => exact errors.cons e
    | passed e =>
      rw [onItsWay, located_nil] at errors
      exact errors

theorem lost (accounts : Accounts [] r w) {i : Invocation} (member : i ∈ w.seen) {e : ResponseError}
    (left : i.left? = some e) : w.response.data = .null := by
  have ends := accounts.ends
  unfold Watch.response
  cases result : w.result with
  | ok results =>
    rw [result] at ends
    cases ends with
    | ok quiet => cases (quiet i member).symm.trans left
  | error fault => rfl

theorem loose (accounts : Accounts [] r w) :
    ∀ e ∈ w.loose, e.path = [] ∧ w.response.data = .null := by
  have ends := accounts.ends
  unfold Watch.response Watch.loose
  intro e member
  cases result : w.result with
  | ok results =>
    rw [result] at member
    cases member
  | error fault =>
    rw [result] at member ends
    cases ends with
    | raised _ placed =>
      rw [List.mem_singleton.mp member]
      exact ⟨placed.elim (fun path => path) fun path => path, rfl⟩
    | passed => cases member

-- Where there is no data, an error has come out of a position, of the description or of neither.
theorem null (accounts : Accounts [] r w) (gone : w.response.data = .null) : w.loose ≠ [] ∨
    (∃ v around inside e, Line w.seen v around inside ∧ v.raised = some e ∧
      Escapes (Exec.located v.place.path e) (v :: around)) ∨ ∃ e, EscapesDescription e w.seen := by
  have ends := accounts.ends
  unfold Watch.response at gone
  unfold Watch.loose
  cases result : w.result with
  | ok results =>
    rw [result] at gone
    cases gone
  | error fault =>
    rw [result] at ends
    cases ends with
    | raised => exact .inl (List.cons_ne_nil _ [])
    | @passed before last e split quiet left =>
      have member : last ∈ w.seen := by
        rw [split]
        exact List.mem_append_right _ List.mem_cons_self
      rw [split]
      exact .inr (((accounts.propagate last member).escaped left).imp_right fun escapes =>
        ⟨_, escapes⟩)

end Accounts

theorem Execution.run_propagated {x : Execution σ} (grounded : x.schema.Grounded) {root : TypeDef}
    (known : x.schema.catalog.type? root.name = some root) (nodes : List Node) (store : σ) :
    Propagated (x.watch root nodes store) (x.watch root nodes store).response := by
  have accounts := x.watch_accounts root nodes store
  have distributes := watch_distributes grounded known nodes store
  refine ⟨accounts.reported ⟨rfl, rfl⟩, ?_, accounts.loose, accounts.null, ?_, ?_⟩
  · intro v around inside e line raised
    obtain ⟨path, ending⟩ := line.ofRaised accounts.propagate raised
    refine ⟨path, ending.imp_right fun escapes => ⟨escapes, ?_⟩⟩
    obtain ⟨i, member, left⟩ := line.left_outermost escapes
    exact accounts.lost member left
  · intro v around inside line
    cases line.distributes distributes with
    | position delivered _ _ => exact delivered
  · intro v around inside e line marked
    cases line.distributes distributes with
    | position _ raised _ => exact (raised e marked).1

theorem errors_propagate {s : Schema} (built : s.Built) (b : Backend σ) {request : Request}
    {m : Request.Measured} (prepared : request.prepare s = .ok m) {root : TypeDef}
    (rooted : (s.catalog.root? m.operation.kind).bind s.catalog.type? = some root) (store : σ) :
    let x : Execution σ := ⟨s, b, m.operation.variableDefs, request.values⟩
    let w := x.watch root m.nodes store
    w.erase = x.selections root .root [] m.nodes { store } ∧
      ∃ response, (s.execute b request store).response = some response ∧
        (s.execute b request store).store = w.run.store ∧ Propagated w response := by
  intro x w
  obtain ⟨name, _, found⟩ := Option.bind_eq_some_iff.mp rooted
  have executed : s.execute b request store = ⟨some w.response, w.run.store, w.run.calls⟩ := by
    unfold Schema.execute
    rw [prepared]
    simp only [rooted]
    rw [x.run_watch]
  refine ⟨(Records.selections x root .root [] m.nodes { store }).symm, w.response, ?_, ?_, ?_⟩
  · rw [executed]
  · rw [executed]
  · exact x.run_propagated built.grounded (Catalog.type?_name found) m.nodes store

-- A shelf on which one book stands, without the title that it has to have.
def shelf : String :=
  Overview.ask "type Query" ["book(id: ID!): Book"] ++ Overview.ask "type Book" ["title: String!"]

def shelfStore : Memory :=
  (Memory.empty.commit ⟨[], [.set ⟨"Book", ⟨"1"⟩⟩ (Row.ofColumns [])]⟩).2

def titleRequest : Request :=
  { source := Overview.ask "query" [Overview.ask "book(id: 1)" ["title"]] }

theorem shelf_errors_propagate : ∃ (s : Schema) (m : Request.Measured) (root : TypeDef), s.Built ∧
    titleRequest.prepare s = .ok m ∧
    (s.catalog.root? m.operation.kind).bind s.catalog.type? = some root ∧
    (s.execute Memory.backend titleRequest shelfStore).response.map
      (fun r => (r.data.isNull, r.errors.map (·.path))) =
        some (false, [[.field "book", .field "title"]]) ∧
    let x : Execution Memory := ⟨s, Memory.backend, m.operation.variableDefs, titleRequest.values⟩
    let w := x.watch root m.nodes shelfStore
    w.erase = x.selections root .root [] m.nodes { store := shelfStore } ∧
      ∃ response, (s.execute Memory.backend titleRequest shelfStore).response = some response ∧
        (s.execute Memory.backend titleRequest shelfStore).store = w.run.store ∧
        Propagated w response := by
  have ready : ((Session.build {} shelf []).toOption.bind fun s =>
      (titleRequest.prepare s).toOption.bind fun m =>
      ((s.catalog.root? m.operation.kind).bind s.catalog.type?).bind fun _ =>
      (s.execute Memory.backend titleRequest shelfStore).response.map fun r =>
        (r.data.isNull, r.errors.map (·.path))) =
      some (false, [[.field "book", .field "title"]]) := by decide +kernel
  obtain ⟨s, made, ready⟩ := Option.bind_eq_some_iff.mp ready
  obtain ⟨m, prepared, ready⟩ := Option.bind_eq_some_iff.mp ready
  obtain ⟨root, rooted, answered⟩ := Option.bind_eq_some_iff.mp ready
  have built : s.Built := ⟨{}, shelf, [], ok_of_toOption made⟩
  have prepared := ok_of_toOption prepared
  exact ⟨s, m, root, built, prepared, rooted, answered,
    errors_propagate built Memory.backend prepared rooted shelfStore⟩

-- A request that gives its variable no value, and a look at the description that does the same.
def unsetRequest : Request :=
  { source := Overview.ask "query ($x: ID!)" [Overview.ask "book(id: $x)" ["title"]] }

def unsetInquiry : Request :=
  { source := Overview.ask "query ($x: Boolean)"
      [Overview.ask "__type(name: \"Book\")" [Overview.ask "fields(includeDeprecated: $x)" ["name"]]] }

-- The first fails outside of the field that may be null, and in the second the position is counted
-- from where the description is entered.
theorem shelf_errors_misplaced : ∃ s : Schema, s.Built ∧
    ((s.catalog.type? "Query").bind (·.field? "book")).map (·.type.nullable) = some true ∧
    (unsetRequest.prepare s).toOption.isSome = true ∧
    (s.execute Memory.backend unsetRequest shelfStore).response.map
      (fun r => (r.data.isNull, r.errors.map (·.path))) = some (true, [[]]) ∧
    (unsetInquiry.prepare s).toOption.isSome = true ∧
    (s.execute Memory.backend unsetInquiry shelfStore).response.map
      (fun r => (r.data.isNull, r.errors.map (·.path))) = some (false, [[.field "fields"]]) := by
  have answers : (Session.build {} shelf []).toOption.any (fun s => decide (
      ((s.catalog.type? "Query").bind (·.field? "book")).map (·.type.nullable) = some true ∧
      (unsetRequest.prepare s).toOption.isSome = true ∧
      (s.execute Memory.backend unsetRequest shelfStore).response.map
        (fun r => (r.data.isNull, r.errors.map (·.path))) = some (true, [[]]) ∧
      (unsetInquiry.prepare s).toOption.isSome = true ∧
      (s.execute Memory.backend unsetInquiry shelfStore).response.map
        (fun r => (r.data.isNull, r.errors.map (·.path))) = some (false, [[.field "fields"]]))) =
      true := by
    decide +kernel
  obtain ⟨s, made, answers⟩ := (Option.any_eq_true _ _).mp answers
  exact ⟨s, ⟨{}, shelf, [], ok_of_toOption made⟩, of_decide_eq_true answers⟩

end RowGraph
