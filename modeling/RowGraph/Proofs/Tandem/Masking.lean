import RowGraph.Proofs.Execution.Consulted
import RowGraph.Proofs.Response.Matching
import RowGraph.Proofs.Response.NonNull
import RowGraph.Proofs.Schema.Pieces
import RowGraph.Proofs.Tandem.Requests
/-!
Faults of a store. Two stores that differ only in the texts of their faults get the same responses, so
nothing of a text is ever told; and a fault comes out, once and without its text, at the field whose
call has met it. Main statement: this is so for every schema, every store and all requests.
-/

namespace RowGraph

variable {σ σ' : Type}

-- Two stores that do the same, but for the texts of their faults.
structure Backend.Twin (b : Backend σ) (b' : Backend σ') (alike : σ → σ' → Prop) : Prop where
  get : ∀ key t t', alike t t' → Agree (fun _ _ => True) Eq (b.get key t).1 (b'.get key t').1 ∧
    alike (b.get key t).2 (b'.get key t').2
  commit : ∀ op t t', alike t t' → Agree (fun _ _ => True) Eq (b.commit op t).1 (b'.commit op t').1 ∧
    alike (b.commit op t).2 (b'.commit op t').2

namespace Backend.Twin

variable {b : Backend σ} {b' : Backend σ'} {alike : σ → σ' → Prop}

def tandem (twin : b.Twin b' alike) (s : Schema) : Tandem s b b' where
  level := alike
  lost _ := False
  get key t t' level := .inr ⟨(twin.get key t t' level).1.imp fun e? _ same =>
    same ▸ Option.rel_refl Entry.Alike.refl e?, (twin.get key t t' level).2⟩
  commit op t t' level := .inr (twin.commit op t t' level)
  lost_get _ _ lost := lost
  lost_commit _ _ lost := lost

theorem noted (b : Backend σ) : b.Twin b.noted fun t n => n.store = t where
  get key t n same := by
    subst same
    exact ⟨.refl (fun _ => trivial) (fun _ => rfl) _, rfl⟩
  commit op t n same := by
    subst same
    exact ⟨.refl (fun _ => trivial) (fun _ => rfl) _, rfl⟩

theorem execute {s : Schema} (grounded : s.Grounded) (twin : b.Twin b' alike) (request : Request)
    {store : σ} {store' : σ'} (level : alike store store') :
    (s.execute b' request store').response = (s.execute b request store).response ∧
      (s.execute b' request store').calls = (s.execute b request store).calls ∧
      alike (s.execute b request store).store (s.execute b' request store').store := by
  rcases (twin.tandem s).execute_along grounded (Request.Alike.refl s request) level with
    absurd | ⟨like, level⟩
  · exact absurd.elim
  · obtain ⟨response, calls⟩ := Prod.mk.inj like.eq
    exact ⟨response, calls, level⟩

theorem serve {s : Schema} (grounded : s.Grounded) (twin : b.Twin b' alike) (requests : List Request)
    {store : σ} {store' : σ'} (level : alike store store') :
    (s.serve b' requests store').1 = (s.serve b requests store).1 := by
  have each : List.Forall₂ (Request.Alike s True) requests requests :=
    List.forall₂_same.mpr fun request _ => .refl s request
  rcases (twin.tandem s).serve_along grounded each level with absurd | ⟨like, _⟩
  · exact absurd.elim
  · have equal : List.Forall₂ Eq (s.serve b requests store).1 (s.serve b' requests store').1 :=
      like.imp fun _ _ like => like.eq.symm
    rw [List.forall₂_eq_eq_eq] at equal
    exact equal.symm

end Backend.Twin

-- Where a fault comes out: under the path of the position that has met it, and no further out than
-- to the first position around that may be null.
def Emerges (w : Watch σ (List (String × Datum))) (response : Response) (v : Visit) : Prop :=
  ∃ around inside e, Line w.seen v around inside ∧ e ∈ response.errors ∧ e.Masked ∧
    e.path = v.place.path ∧ (Stops e (v :: around) ∨ Escapes e (v :: around) ∧ response.data = .null)

-- What has been noted of a request: the calls of its fields, and the faults that have come out.
def Schema.Discloses (s : Schema) (w : Watch (Diary σ) (List (String × Datum)))
    (response : Response) : Prop :=
  ∃ notes, w.run.store.events = notes.flatten ∧
    List.Forall₂ (fun v events => ∃ fault, Follows (s.calls v) events fault ∧
      (fault.isSome → Emerges w response v)) (Invocation.visitsOf w.seen) notes

theorem ResponseError.Masked.located {e : ResponseError} (masked : e.Masked) (path : Path) :
    (Exec.located path e).Masked := by
  unfold Exec.located
  split
  · exact ⟨masked.message, masked.code⟩
  · exact masked

-- The error that was raised at a position is reported.
theorem Line.reported {seen inside : List Invocation} {v : Visit} {around : List Visit}
    (line : Line seen v around inside) {e : ResponseError} (raised : v.raised = some e) :
    Exec.located v.place.path e ∈ Invocation.errorsOf seen := by
  refine line.gathered (f := Invocation.errors) (fun i rest => by rw [Invocation.errorsOf]) ?_ ?_
  · intro v inside
    rw [Invocation.errors]
    exact List.subset_append_right _ _
  · rw [Invocation.errors, Visit.reported, raised]
    exact List.mem_append_left _ List.mem_cons_self

theorem Propagated.emerges {w : Watch σ (List (String × Datum))} {response : Response}
    (propagated : Propagated w response) {v : Visit} (member : v ∈ Invocation.visitsOf w.seen)
    {e : ResponseError} (raised : v.raised = some e) (masked : e.Masked) : Emerges w response v := by
  obtain ⟨around, inside, line⟩ :=
    Line.ofVisits w.seen (fun _ _ there => ⟨[], .outermost there⟩) v member
  obtain ⟨path, stops⟩ := propagated.raised v around inside e line raised
  refine ⟨around, inside, _, line, ?_, masked.located _, path, stops⟩
  exact propagated.reported.mem_iff.mpr (List.mem_append_right _ (line.reported raised))

-- A fault at a field ends the field. Its siblings and all that is around it go on from where they were,
-- with one error more if the field may be null, and with that error on its way if it may not.
def Execution.Confines (x : Execution (Diary σ)) (type : TypeDef) (parent : Outcome) (path : Path)
    (head : FieldHead) (object : Complete.ObjectData (Diary σ)) (f : FieldDef) : Prop :=
  ∀ arguments r events event fault, x.arguments f head r = (.ok arguments, r) →
    (x.declaredField type.name f.name (path ++ [.field head.key]) head.loc arguments parent
      r).2.store.events = r.store.events ++ events →
    event ∈ events → event.fault? = some fault →
    ∃ e store calls, e.Masked ∧ e.path = path ++ [.field head.key] ∧
      x.field type parent path head object f r =
        if f.type.nullable then
          (.ok none, { r with store, calls, absorbed := r.absorbed ++ [e] })
        else (.error e, { r with store, calls })

theorem Execution.confines {x : Execution (Diary σ)} {b : Backend σ} (noted : x.backend = b.noted)
    (type : TypeDef) (parent : Outcome) (path : Path) (head : FieldHead)
    (object : Complete.ObjectData (Diary σ)) (f : FieldDef) :
    x.Confines type parent path head object f := by
  intro arguments r events event fault read grown member failed
  let here := path ++ [Segment.field head.key]
  let ran := x.declaredField type.name f.name here head.loc arguments parent r
  obtain ⟨events', met, follows, grown', stopped⟩ :=
    x.declaredField_makes noted type.name f.name here head.loc arguments parent r
  obtain rfl : events' = events := List.append_cancel_left (grown'.symm.trans grown)
  obtain ⟨result, kept⟩ := stopped fault (follows.met member failed)
  let e : ResponseError := Exec.located here ((GraphError.store fault).raisedAt head.loc)
  refine ⟨e, ran.2.store, ran.2.calls, .located ⟨rfl, rfl⟩ here, rfl, ?_⟩
  have reduced : x.field type parent path head object f r =
      Exec.absorb here f.type.nullable ((GraphError.store fault).raisedAt head.loc) ran.2 := by
    unfold Execution.field
    rw [bind_apply, read]
    simp only [Exec.guard]
    rw [bind_apply]
    rcases split : x.declaredField type.name f.name here head.loc arguments parent r with ⟨y, r'⟩
    rw [split] at result
    obtain rfl : y = .error ((GraphError.store fault).raisedAt head.loc) := result
    rw [show ran.2 = r' from congrArg Prod.snd split]
  rw [reduced, kept]
  unfold Exec.absorb
  cases f.type.nullable with
  | true => rfl
  | false => rfl

-- The notes of a request are those of its fields, and its response has the faults among them.
theorem Schema.Built.discloses {s : Schema} (built : s.Built) (b : Backend σ) {request : Request}
    {store : σ} {w : Watch (Diary σ) (List (String × Datum))}
    (watched : s.watch? b.noted request ⟨store, []⟩ = some w) :
    ∃ response, (s.execute b.noted request ⟨store, []⟩).response = some response ∧
      (s.execute b.noted request ⟨store, []⟩).store = w.run.store ∧
      Propagated w response ∧ s.Discloses w response := by
  obtain ⟨notes, each, noted⟩ := Schema.watch?_consults watched
  obtain ⟨m, root, prepared, rooted, rfl⟩ := Schema.watch?_some watched
  obtain ⟨name, _, found⟩ := Option.bind_eq_some_iff.mp rooted
  let x : Execution (Diary σ) := ⟨s, b.noted, m.operation.variableDefs, request.values⟩
  have propagated : Propagated (x.watch root m.nodes ⟨store, []⟩) (x.watch root m.nodes ⟨store, []⟩).response :=
    x.run_propagated built.grounded (Catalog.type?_name found) m.nodes ⟨store, []⟩
  refine ⟨_, ?_, ?_, propagated, notes, noted, ?_⟩
  · rw [Schema.execute_run prepared rooted]
  · rw [Schema.execute_run prepared rooted]
  · refine ((List.forall₂_and_left (p := (· ∈ Invocation.visitsOf _)) _ _).mpr
      ⟨fun _ member => member, each⟩).imp ?_
    rintro v events ⟨member, fault, follows, raises⟩
    refine ⟨fault, follows, fun met => ?_⟩
    obtain ⟨e, raised, masked⟩ := raises met
    exact propagated.emerges member raised masked

-- Whatever a store does, clients see the same of it if only the texts of its faults are others; and
-- each fault comes out at the field that has met it, which is over with nothing else touched.
theorem store_faults_masked {s : Schema} (built : s.Built) :
    (∀ {σ σ' : Type} {b : Backend σ} {b' : Backend σ'} {alike : σ → σ' → Prop}, b.Twin b' alike →
      ∀ {store store'}, alike store store' → ∀ requests,
        (s.serve b' requests store').1 = (s.serve b requests store).1) ∧
    ∀ {σ : Type} (b : Backend σ) (request : Request) (store : σ),
      let noted := s.execute b.noted request ⟨store, []⟩
      (noted.response = (s.execute b request store).response ∧
        noted.store.store = (s.execute b request store).store) ∧
      (∀ w, s.watch? b.noted request ⟨store, []⟩ = some w →
        ∃ response, noted.response = some response ∧ noted.store = w.run.store ∧
          Propagated w response ∧ s.Discloses w response) ∧
      (s.watch? b.noted request ⟨store, []⟩ = none → noted.store.events = []) ∧
      ∀ x : Execution (Diary σ), x.schema = s → x.backend = b.noted →
        ∀ type parent path head object f, x.Confines type parent path head object f := by
  refine ⟨fun twin _ _ level requests => twin.serve built.grounded requests level, ?_⟩
  intro σ b request store noted
  have start : (⟨store, []⟩ : Diary σ).store = store := rfl
  obtain ⟨response, _, same⟩ := (Backend.Twin.noted b).execute built.grounded request start
  refine ⟨⟨response, same⟩, fun w watched => built.discloses b watched, fun unwatched => ?_,
    fun x _ backend => x.confines backend⟩
  rw [show noted.store = ⟨store, []⟩ from Schema.execute_unwatched unwatched]

-- A store of which every second call fails.
structure Flaky where
  memory : Memory
  fails : Bool := false

def Flaky.answer (e : StoreError) (f : Flaky) (ran : Except StoreError α × Memory) :
    Except StoreError α × Flaky :=
  if f.fails then (.error e, { f with fails := false }) else (ran.1, ⟨ran.2, true⟩)

def Flaky.backend (e : StoreError) : Backend Flaky where
  get key f := f.answer e (Memory.backend.get key f.memory)
  commit op f := f.answer e (Memory.backend.commit op f.memory)

theorem Flaky.twin (e e' : StoreError) : (Flaky.backend e).Twin (Flaky.backend e') Eq := by
  have same {α : Type} (f : Flaky) (ran : Except StoreError α × Memory) :
      Agree (fun _ _ => True) Eq (f.answer e ran).1 (f.answer e' ran).1 ∧
        (f.answer e ran).2 = (f.answer e' ran).2 := by
    unfold answer
    cases f.fails with
    | true => exact ⟨.error trivial, rfl⟩
    | false => exact ⟨.refl (fun _ => trivial) (fun _ => rfl) _, rfl⟩
  refine ⟨?_, ?_⟩
  · rintro key f _ rfl
    exact same f _
  · rintro op f _ rfl
    exact same f _

def bothRequest : Request :=
  { source := Overview.ask "query" [Overview.ask "a: book(id: 1)" ["versionstamp"],
      Overview.ask "b: book(id: 1)" ["versionstamp"]] }

theorem library_faults_masked : ∃ (s : Schema) (w : Watch (Diary Flaky) (List (String × Datum))),
    s.Built ∧
    let b := Flaky.backend (.datastore "disk 7 is gone")
    let b' := Flaky.backend (.unsupported "/secret")
    let start : Flaky := { memory := libraryStore.chronicle.memory }
    b.Twin b' Eq ∧ s.watch? b.noted bothRequest ⟨start, []⟩ = some w ∧
    (s.serve b [bothRequest, putRequest] start).1.flatMap (fun a => a.1.toList.flatMap fun response =>
      response.errors.map fun e => (e.message, e.path, e.code)) =
      [("Internal Error", [.field "b"], some "DbError")] ∧
    (s.serve b' [bothRequest, putRequest] start).1 = (s.serve b [bothRequest, putRequest] start).1 ∧
    ∃ response, (s.execute b.noted bothRequest ⟨start, []⟩).response = some response ∧
      (s.execute b.noted bothRequest ⟨start, []⟩).store = w.run.store ∧ Propagated w response ∧
      s.Discloses w response := by
  let b := Flaky.backend (.datastore "disk 7 is gone")
  let start : Flaky := { memory := libraryStore.chronicle.memory }
  have ready : ((Session.build {} library []).toOption.bind fun s =>
      (s.watch? b.noted bothRequest ⟨start, []⟩).map fun _ =>
      (s.serve b [bothRequest, putRequest] start).1.flatMap fun a => a.1.toList.flatMap fun response =>
        response.errors.map fun e => (e.message, e.path, e.code)) =
      some [("Internal Error", [.field "b"], some "DbError")] := by
    rw [Session.build_toList]
    simp only [library, String.toList_append, Overview.toList_ask]
    decide +kernel
  obtain ⟨s, made, ready⟩ := Option.bind_eq_some_iff.mp ready
  obtain ⟨w, watched, answers⟩ := Option.map_eq_some_iff.mp ready
  have built : s.Built := ⟨{}, library, [], ok_of_toOption made⟩
  exact ⟨s, w, built, Flaky.twin _ _, watched, answers,
    (store_faults_masked built).1 (Flaky.twin _ _) rfl _,
    ((store_faults_masked built).2 b bothRequest start).2.1 w watched⟩

end RowGraph
