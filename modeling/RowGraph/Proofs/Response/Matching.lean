import RowGraph.Proofs.Propagation.Absorption
import RowGraph.Proofs.Propagation.Request
import RowGraph.Proofs.Response.Shown
/-!
Errors and nulls of one response. They travel apart: an error is noted where it is stopped, and the
null goes into the result of the position that has stopped it. Main statement: for every error that
was raised outside of the description of the schema, a position on the way to it was answered by
null; and the data shows a null there, unless another selection of a response key on the way was
first to show something else.
-/

namespace RowGraph

variable {σ α : Type}

namespace Invocation

mutual

def described : Invocation → List ResponseError
  | .position _ inside => describedIn inside
  | .description stopped left => stopped ++ left.toList

-- The errors that were met in the description of the schema.
def describedIn : List Invocation → List ResponseError
  | [] => []
  | i :: rest => i.described ++ describedIn rest

end

mutual

theorem errors_perm : ∀ i : Invocation,
    i.errors.Perm (i.visits.flatMap Visit.reported ++ i.described)
  | .position v inside => by
    rw [errors, visits, described, List.flatMap_cons, List.append_assoc]
    exact (errorsOf_perm inside).append_left _
  | .description stopped left => by
    rw [errors, visits, described]
    exact .refl _

-- What was reported was raised at a position or met in the description.
theorem errorsOf_perm : ∀ seen : List Invocation,
    (errorsOf seen).Perm ((visitsOf seen).flatMap Visit.reported ++ describedIn seen)
  | [] => .refl _
  | i :: rest => by
    rw [errorsOf, visitsOf, describedIn, List.flatMap_append]
    refine ((errors_perm i).append (errorsOf_perm rest)).trans ?_
    simp only [List.append_assoc]
    refine List.Perm.append_left _ ?_
    rw [← List.append_assoc, ← List.append_assoc]
    exact List.perm_append_comm.append_right _

end

end Invocation

-- A position on the way along a path was answered by null, or there is no result at all.
def Heeded (w : Watch σ α) (path : Path) : Prop :=
  (∃ fault, w.result = .error fault) ∨
    ∃ u ∈ Invocation.visitsOf w.seen, u.place.path <+: path ∧ u.answer = .ok none

-- All that was invoked lies below the position, and every error that was raised is heeded.
structure Heeds (α : Type) (p : Path) (_ : Run σ) (w : Watch σ α) : Prop where
  below : ∀ v ∈ Invocation.visitsOf w.seen, p <+: v.place.path
  heeded : ∀ v ∈ Invocation.visitsOf w.seen, v.raised.isSome = true → Heeded w v.place.path

namespace Heeds

theorem idle {p : Path} {r : Run σ} {w : Watch σ α} (seen : Invocation.visitsOf w.seen = []) :
    Heeds α p r w := by
  refine ⟨?_, ?_⟩ <;> rw [seen] <;> exact fun _ absurd => nomatch absurd

theorem close {p : Path} {r s : Run σ} {v : Visit} {w : Watch σ (Option Datum)}
    (fresh : v.raised = none) (inner : p <+: v.place.path)
    (inside : Heeds _ v.place.path s w) : Heeds _ p r (Watched.close v w) := by
  refine ⟨?_, ?_⟩
  · obtain ⟨v', closed⟩ := Watched.close_closed v w
    rw [closed.seen, Invocation.visitsOf_position]
    intro u member
    rcases List.mem_cons.mp member with rfl | old
    · rw [closed.place]
      exact inner
    · exact inner.trans (inside.below u old)
  · unfold Watched.close
    cases result : w.result with
    | ok d =>
      intro u member raised
      rw [Invocation.visitsOf_position] at member
      rcases List.mem_cons.mp member with rfl | old
      · rw [show ({ v with answer := .ok d } : Visit).raised = v.raised from rfl, fresh] at raised
        cases raised
      · rcases inside.heeded u old raised with ⟨fault, failed⟩ | ⟨u', there, path, null⟩
        · cases failed.symm.trans result
        · refine .inr ⟨u', ?_, path, null⟩
          rw [Invocation.visitsOf_position]
          exact List.mem_cons_of_mem _ there
    | error fault =>
      simp only
      cases loose : v.place.nullable with
      | false =>
        rw [if_neg Bool.false_ne_true]
        exact fun _ _ _ => .inl ⟨_, rfl⟩
      | true =>
        -- The position itself is null, and all that was invoked inside lies below it.
        rw [if_pos rfl]
        intro u member _
        let stop : Visit := { v with raised := fault.raised?, answer := .ok none }
        refine .inr ⟨stop, ?_, ?_, rfl⟩
        · rw [Invocation.visitsOf_position]
          exact List.mem_cons_self
        · rw [Invocation.visitsOf_position] at member
          rcases List.mem_cons.mp member with rfl | old
          · exact List.prefix_rfl
          · exact inside.below u old

theorem steps : Steps (σ := σ) Heeds where
  give _ _ _ _ := idle rfl
  raise _ _ _ _ _ _ := idle rfl
  next α β p r w a w' first result rest := by
    refine ⟨fun v member => ?_, fun v member raised => ?_⟩
    · rw [Invocation.visitsOf_append] at member
      exact (List.mem_append.mp member).elim (first.below v) (rest.below v)
    · rw [Invocation.visitsOf_append] at member
      unfold Heeded
      rw [Invocation.visitsOf_append]
      rcases List.mem_append.mp member with old | new
      · rcases first.heeded v old raised with ⟨fault, failed⟩ | ⟨u, there, path, null⟩
        · cases failed.symm.trans result
        · exact .inr ⟨u, List.mem_append_left _ there, path, null⟩
      · exact (rest.heeded v new raised).imp_right fun ⟨u, there, path, null⟩ =>
          ⟨u, List.mem_append_right _ there, path, null⟩
  stop _ _ _ _ _ fault first _ := ⟨first.below, fun _ _ _ => .inl ⟨fault, rfl⟩⟩
  atElement p i nullable body r inside := by
    have inner : p <+: p ++ [.index i] := List.prefix_append _ _
    unfold Watched.element
    generalize Exec.takeMark (p ++ [.index i]) r = taken at inside ⊢
    rcases taken with ⟨_ | _ | e, r'⟩
    · exact close (s := r') rfl inner inside
    · exact close (s := r') rfl inner (idle rfl)
    · exact close (s := r') rfl inner (idle rfl)

theorem law (x : Execution σ) : Law x Heeds fun _ _ _ => True where
  toSteps := steps
  lasting _ _ _ _ _ _ _ _ := trivial
  invocation type parent p key loc object f arguments r _ _ objects _ := by
    have inner : p <+: p ++ [.field key] := List.prefix_append _ _
    unfold Execution.watchInvocation
    split
    · rename_i o r' _
      refine close (s := r') rfl inner ?_
      exact steps.ofOutcome (c := x.schema.catalog) (fun _ _ _ _ _ _ _ _ => trivial) objects loc
        f.type (p ++ [.field key]) o r' fun found _ => fits_of_known (fun _ _ _ _ => trivial) _ found
    · rename_i e r' _
      exact close (s := r') rfl inner (idle rfl)
  description _ _ p head f children r _ _ := by
    obtain ⟨_, stopped, left, seen⟩ := x.watchDescription_record p head f children r
    exact idle (by rw [seen]; rfl)

end Heeds

mutual

theorem Line.ofVisit {seen : List Invocation} : ∀ i : Invocation,
    (∀ v within, i = .position v within → ∃ around, Line seen v around within) →
    ∀ u ∈ i.visits, ∃ around within, Line seen u around within
  | .position v inside, here, u, member => by
    obtain ⟨around, line⟩ := here v inside rfl
    rw [Invocation.visits] at member
    rcases List.mem_cons.mp member with rfl | deeper
    · exact ⟨around, inside, line⟩
    · exact Line.ofVisits inside (fun _ _ there => ⟨_, .inner line there⟩) u deeper
  | .description _ _, _, _, absurd => nomatch absurd

-- Every position stands in a line of positions around it.
theorem Line.ofVisits {seen : List Invocation} : ∀ some : List Invocation,
    (∀ v within, .position v within ∈ some → ∃ around, Line seen v around within) →
    ∀ u ∈ Invocation.visitsOf some, ∃ around within, Line seen u around within
  | [], _, _, absurd => nomatch absurd
  | i :: rest, here, u, member => by
    rw [Invocation.visitsOf] at member
    rcases List.mem_append.mp member with first | later
    · exact Line.ofVisit i (fun v within same => here v within (same ▸ List.mem_cons_self)) u first
    · exact Line.ofVisits rest
        (fun v within there => here v within (List.mem_cons_of_mem _ there)) u later

end

namespace Execution

variable {x : Execution σ} {root : TypeDef}

theorem watch_heeds (x : Execution σ) (root : TypeDef) (nodes : List Node) (store : σ) :
    Heeds _ [] { store } (x.watch root nodes store) :=
  (Heeds.law x).ofSelections nodes [] { store } trivial

-- What was reported of a position has its path.
theorem reported_path (nodes : List Node) (store : σ) {v : Visit}
    (member : v ∈ Invocation.visitsOf (x.watch root nodes store).seen) {e : ResponseError}
    (reported : e ∈ v.reported) : v.raised.isSome = true ∧ e.path = v.place.path := by
  obtain ⟨around, inside, line⟩ :=
    Line.ofVisits _ (fun _ _ there => ⟨[], .outermost there⟩) v member
  obtain ⟨raised, here, rfl⟩ := Option.map_eq_some_iff.mp (Option.mem_toList.mp reported)
  refine ⟨by rw [here]; rfl, ?_⟩
  exact (line.ofRaised (x.watch_accounts root nodes store).propagate here).1

end Execution

theorem errors_matched {s : Schema} (built : s.Built) (b : Backend σ) {request : Request}
    {m : Request.Measured} (prepared : request.prepare s = .ok m) {root : TypeDef}
    (rooted : (s.catalog.root? m.operation.kind).bind s.catalog.type? = some root) (store : σ) :
    let x : Execution σ := ⟨s, b, m.operation.variableDefs, request.values⟩
    let w := x.watch root m.nodes store
    w.erase = x.selections root .root [] m.nodes { store } ∧
      ∃ response own, (s.execute b request store).response = some response ∧
        response.errors.Perm (own ++ Invocation.describedIn w.seen) ∧
        ∀ e ∈ own,
          (response.data = .null ∨
            ∃ u ∈ Invocation.visitsOf w.seen, u.place.path <+: e.path ∧ u.answer = .ok none) ∧
          (response.data.MeetsNull e.path ∨
            Outdone s.catalog w.seen (.named root.name false) m.nodes [] e.path) := by
  intro x w
  obtain ⟨name, _, found⟩ := Option.bind_eq_some_iff.mp rooted
  have known := Catalog.type?_name found
  have propagated := x.run_propagated built.grounded known m.nodes store
  refine ⟨(Records.selections x root .root [] m.nodes { store }).symm, w.response,
    w.loose ++ (Invocation.visitsOf w.seen).flatMap Visit.reported, ?_, ?_, ?_⟩
  · rw [Schema.execute_run prepared rooted]
  · rw [List.append_assoc]
    exact propagated.reported.trans ((Invocation.errorsOf_perm w.seen).append_left _)
  · intro e member
    rcases List.mem_append.mp member with loose | placed
    · obtain ⟨_, gone⟩ := propagated.loose e loose
      refine ⟨.inl gone, .inl ?_⟩
      rw [gone]
      exact Datum.meetsNull_null e.path
    · obtain ⟨v, visited, reported⟩ := List.mem_flatMap.mp placed
      obtain ⟨raised, path⟩ := x.reported_path m.nodes store visited reported
      rw [path]
      refine ⟨?_, x.watch_meets built.grounded built.closed known m.nodes store v visited raised⟩
      rcases (x.watch_heeds root m.nodes store).heeded v visited raised with ⟨fault, failed⟩ | null
      · refine .inl ?_
        unfold Watch.response
        rw [failed]
      · exact .inr null

theorem shelf_errors_matched : ∃ (s : Schema) (m : Request.Measured) (root : TypeDef), s.Built ∧
    titleRequest.prepare s = .ok m ∧
    (s.catalog.root? m.operation.kind).bind s.catalog.type? = some root ∧
    (s.execute Memory.backend titleRequest shelfStore).response.map
      (fun r => r.errors.map fun e => (e.path, decide (r.data.MeetsNull e.path))) =
        some [([.field "book", .field "title"], true)] ∧
    let x : Execution Memory := ⟨s, Memory.backend, m.operation.variableDefs, titleRequest.values⟩
    let w := x.watch root m.nodes shelfStore
    w.erase = x.selections root .root [] m.nodes { store := shelfStore } ∧
      ∃ response own, (s.execute Memory.backend titleRequest shelfStore).response = some response ∧
        response.errors.Perm (own ++ Invocation.describedIn w.seen) ∧
        ∀ e ∈ own,
          (response.data = .null ∨
            ∃ u ∈ Invocation.visitsOf w.seen, u.place.path <+: e.path ∧ u.answer = .ok none) ∧
          (response.data.MeetsNull e.path ∨
            Outdone s.catalog w.seen (.named root.name false) m.nodes [] e.path) := by
  have ready : ((Session.build {} shelf []).toOption.bind fun s =>
      (titleRequest.prepare s).toOption.bind fun m =>
      ((s.catalog.root? m.operation.kind).bind s.catalog.type?).bind fun _ =>
      (s.execute Memory.backend titleRequest shelfStore).response.map fun r =>
        r.errors.map fun e => (e.path, decide (r.data.MeetsNull e.path))) =
      some [([.field "book", .field "title"], true)] := by decide +kernel
  obtain ⟨s, made, ready⟩ := Option.bind_eq_some_iff.mp ready
  obtain ⟨m, prepared, ready⟩ := Option.bind_eq_some_iff.mp ready
  obtain ⟨root, rooted, answered⟩ := Option.bind_eq_some_iff.mp ready
  have built : s.Built := ⟨{}, shelf, [], ok_of_toOption made⟩
  have prepared := ok_of_toOption prepared
  exact ⟨s, m, root, built, prepared, rooted, answered,
    errors_matched built Memory.backend prepared rooted shelfStore⟩

-- A request that asks for the book twice, and only then for the title that it has to have.
def twiceRequest : Request :=
  { source := Overview.ask "query"
      [Overview.ask "book(id: 1)" ["__typename"], Overview.ask "book(id: 1)" ["title"]] }

-- The object that was shown first hides the null, and a position in the description is counted from
-- where it is entered, so it is not to be found from the root.
theorem shelf_errors_unmatched : ∃ s : Schema, s.Built ∧
    (twiceRequest.prepare s).toOption.isSome = true ∧
    (s.execute Memory.backend twiceRequest shelfStore).response.map
      (fun r => r.errors.map fun e => (e.path, decide (r.data.MeetsNull e.path))) =
        some [([.field "book", .field "title"], false)] ∧
    (unsetInquiry.prepare s).toOption.isSome = true ∧
    (s.execute Memory.backend unsetInquiry shelfStore).response.map
      (fun r => r.errors.map fun e => (e.path, decide (r.data.MeetsNull e.path))) =
        some [([.field "fields"], false)] := by
  have answers : (Session.build {} shelf []).toOption.any (fun s => decide (
      (twiceRequest.prepare s).toOption.isSome = true ∧
      (s.execute Memory.backend twiceRequest shelfStore).response.map
        (fun r => r.errors.map fun e => (e.path, decide (r.data.MeetsNull e.path))) =
          some [([.field "book", .field "title"], false)] ∧
      (unsetInquiry.prepare s).toOption.isSome = true ∧
      (s.execute Memory.backend unsetInquiry shelfStore).response.map
        (fun r => r.errors.map fun e => (e.path, decide (r.data.MeetsNull e.path))) =
          some [([.field "fields"], false)])) = true := by
    decide +kernel
  obtain ⟨s, made, answers⟩ := (Option.any_eq_true _ _).mp answers
  exact ⟨s, ⟨{}, shelf, [], ok_of_toOption made⟩, of_decide_eq_true answers⟩

end RowGraph
