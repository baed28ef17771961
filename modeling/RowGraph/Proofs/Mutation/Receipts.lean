import RowGraph.Proofs.Mutation.Counted
import RowGraph.Proofs.Propagation.Upright
import RowGraph.Proofs.Response.NonNull
/-!
What a client learns of a commit. The stamp of a commit is shown through the fields of a result type,
and any of these may fail when the commit has gone through. Main statement: a field that has
committed is shown by a value, unless an error of the field or of what is below it is reported, an
error that no field can stop takes all data with it, or the response key is selected again and was
null before.
-/

namespace RowGraph

-- The operation of a field goes through on a store, under a stamp.
def Schema.Stamps (s : Schema) (m : Memory) (v : Visit) (stamp : Versionstamp) : Prop :=
  ∃ op ∈ s.sent v, (m.commit op).1 = .ok (some stamp)

-- What is shown of a commit: its stamp, or an object that has it.
inductive Confirms (stamp : Versionstamp) : Datum → Prop where
  | text : Confirms stamp (.string stamp.text)
  | object {members : List (String × Datum)} : Confirms stamp (.object members)

theorem Confirms.nonNull {stamp : Versionstamp} {d : Datum} (confirms : Confirms stamp d) :
    d ≠ .null := by
  rintro rfl
  cases confirms

-- What was seen of a field that has committed.
inductive Receipt (w : Watch Memory (List (String × Datum))) (v : Visit) (stamp : Versionstamp) :
    Prop where
  | shown {key : String} {d : Datum} : v.place.path = [.field key] → v.answer = .ok (some d) →
      Confirms stamp d → (∀ results, w.result = .ok results → (key, d) ∈ results) →
      Receipt w v stamp
  | failed {key : String} {e : ResponseError} : v.place.path = [.field key] →
      v.answer = .ok none → e ∈ Invocation.errorsOf w.seen → v.place.path <+: e.path →
      Receipt w v stamp

theorem Receipt.mono {w w' : Watch Memory (List (String × Datum))} {v : Visit} {stamp : Versionstamp}
    (errors : Invocation.errorsOf w.seen ⊆ Invocation.errorsOf w'.seen)
    (results : ∀ rs', w'.result = .ok rs' → ∃ rs, w.result = .ok rs ∧ rs ⊆ rs')
    (receipt : Receipt w v stamp) : Receipt w' v stamp := by
  cases receipt with
  | shown path answer confirms inside =>
    refine .shown path answer confirms fun rs' made => ?_
    obtain ⟨rs, earlier, kept⟩ := results rs' made
    exact kept (inside rs earlier)
  | failed path answer reported below => exact .failed path answer (errors reported) below

variable {x : Execution Memory}

-- Every field among those that were invoked that has committed has its receipt.
def Receipts (x : Execution Memory) (r : Run Memory) (w : Watch Memory (List (String × Datum))) :
    Prop :=
  ∀ before v after, Invocation.visitsOf w.seen = before ++ v :: after → ∀ stamp,
    x.schema.Stamps (r.store.commitAll (before.flatMap x.schema.sent)) v stamp → Receipt w v stamp

-- A member of two lists in a row is in the first one or in the second.
theorem append_eq_split {xs ys before after : List α} {a : α}
    (split : xs ++ ys = before ++ a :: after) : (∃ after', xs = before ++ a :: after') ∨
      ∃ before', before = xs ++ before' ∧ ys = before' ++ a :: after := by
  obtain ⟨before', rfl, rest⟩ | ⟨after', rfl, rest⟩ := List.append_eq_append_iff.mp split
  · exact .inr ⟨before', rfl, rest⟩
  · cases after' with
    | nil => exact .inr ⟨[], by simp, rest.symm⟩
    | cons b after' =>
      obtain ⟨rfl, _⟩ := List.cons.inj rest
      exact .inl ⟨after', rfl⟩

namespace Receipts

variable {r : Run Memory} {w w' : Watch Memory (List (String × Datum))}

theorem idle (seen : Invocation.visitsOf w.seen = []) : Receipts x r w := by
  intro before v after split
  rw [seen] at split
  simp at split

theorem stop {fault : Fault} (first : Receipts x r w) :
    Receipts x r ⟨.error fault, w.run, w.seen⟩ := by
  intro before v after split stamp stamps
  have receipt := first before v after split stamp stamps
  apply receipt.mono
  · exact fun _ there => there
  · exact fun _ absurd => nomatch absurd

theorem append (memory : x.backend = Memory.backend) {results : List (String × Datum)} {p : Path}
    (first : Receipts x r w) (result : w.result = .ok results) (sends : SendsListed x _ p r w)
    (later : Receipts x w.run w') :
    Receipts x r ⟨w'.result.map (results ++ ·), w'.run, w.seen ++ w'.seen⟩ := by
  have errors : Invocation.errorsOf (w.seen ++ w'.seen) =
      Invocation.errorsOf w.seen ++ Invocation.errorsOf w'.seen := Invocation.errorsOf_append _ _
  intro before v after split stamp stamps
  rw [Invocation.visitsOf_append] at split
  obtain ⟨after', here⟩ | ⟨before', rfl, there⟩ := append_eq_split split
  · refine (first before v after' here stamp stamps).mono ?_ fun all made => ?_
    · rw [errors]
      exact List.subset_append_left _ _
    · obtain ⟨rs, _, rfl⟩ := Watched.map_ok made
      exact ⟨results, result, List.subset_append_left _ _⟩
  · unfold SendsListed at sends
    rw [memory] at sends
    rw [List.flatMap_append, Memory.commitAll_append, ← Memory.commitAll_of_sends sends] at stamps
    refine (later before' v after there stamp stamps).mono ?_ fun all made => ?_
    · rw [errors]
      exact List.subset_append_right _ _
    · obtain ⟨rs, last, rfl⟩ := Watched.map_ok made
      exact ⟨rs, last, List.subset_append_right _ _⟩

end Receipts

-- A field whose operation goes through is a mutation field, and hands on the stamp.
theorem Execution.declaredField_stamped (memory : x.backend = Memory.backend) {type field : String}
    {here : Path} {loc : Location} {arguments : Arguments} {parent : Outcome} {r : Run Memory}
    {op : Operation} {stamp : Versionstamp} (sent : op ∈ x.schema.sends type field arguments)
    (taken : (r.store.commit op).1 = .ok (some stamp)) :
    ∃ plan r', FieldMap.get? x.schema.resolvers type field = some (.mutation plan) ∧
      x.declaredField type field here loc arguments parent r =
        (.ok (some (Commit.result plan stamp)), r') := by
  have declared := x.declaredField_declared type field here loc arguments parent r
  unfold Schema.sends at sent
  generalize x.declaredField type field here loc arguments parent r = ran at declared ⊢
  cases declared with
  | refused refusal => simp [refusal] at sent
  | unserved unserved => simp [unserved] at sent
  | @resolved r₁ r₂ resolver result free served steady ran _ =>
    simp only [free, served] at sent
    cases resolver with
    | mutation plan =>
      unfold Resolver.sends Commit.sends at sent
      cases found : (Members.get? plan.argument arguments).bind Datum.asObject? with
      | none => simp [found] at sent
      | some input =>
        simp only [found] at sent
        cases collected : Commit.operation plan input with
        | error e => simp [collected] at sent
        | ok op' =>
          simp only [collected] at sent
          by_cases empty : op'.isEmpty = true
          · simp [empty] at sent
          rw [if_neg empty] at sent
          obtain rfl := List.mem_singleton.mp sent
          have given := Commit.object_given.mp found
          have store : r₁.store = r.store := by
            have moved := steady.store
            rw [memory] at moved
            exact Memory.commitAll_of_sends moved
          have commits := Commit.mutation_eq x.backend given r₁
          rw [collected] at commits
          simp only [if_neg empty] at commits
          refine ⟨plan, r₂, served, ?_⟩
          have same : (result, r₂) = Commit.answered plan r₁ (x.backend.commit op r₁.store) :=
            ran.symm.trans commits
          rw [memory, store] at same
          change (result, r₂) = Commit.answered plan r₁ (r.store.commit op) at same
          generalize r.store.commit op = answer at same taken
          obtain ⟨answer, m'⟩ := answer
          obtain rfl : answer = .ok (some stamp) := taken
          obtain ⟨rfl, rfl⟩ := Prod.mk.inj same
          rfl
    | _ => simp [Resolver.sends] at sent

-- What a mutation field hands on is shown by its stamp, or by an object.
theorem Watched.outcome_result {s : Schema} (grounded : s.Grounded) {type field : String}
    {t : TypeDef} {f : FieldDef} {plan : MutationPlan} (known : s.catalog.type? type = some t)
    (declared : t.field? field = some f)
    (resolves : FieldMap.get? s.resolvers type field = some (.mutation plan)) {σ : Type}
    {object : ObjectData σ} (composes : Composes object) {loc : Location} {p : Path} {r : Run σ}
    {stamp : Versionstamp} {d : Option Datum}
    (made : (outcome s.catalog object loc f.type p (some (Commit.result plan stamp)) r).result =
      .ok d) : ∃ shown, d = some shown ∧ Confirms stamp shown := by
  obtain ⟨f₀, rfl, serves⟩ := grounded.meets known declared resolves
  change (outcome s.catalog object loc f₀.type p _ r).result = _ at made
  cases serves with
  | mutation _ mutates =>
    obtain ⟨shape, classified, accepted⟩ := Document.bind_ok mutates.result
    cases kind : shape.kind with
    | referenceList table required =>
      simp only [kind] at accepted
      cases accepted
    | scalar =>
      simp only [kind] at accepted
      split at accepted
      · rename_i text
        obtain ⟨single, name⟩ := Bool.and_eq_true_iff.mp text
        have builtin : builtinScalars.contains f₀.type.name = true := by
          rcases Bool.or_eq_true_iff.mp name with same | same
          · rw [of_decide_eq_true same]
            rfl
          · rw [of_decide_eq_true same]
            rfl
        obtain ⟨scalar, found, body⟩ := grounded.type?_builtin builtin
        have result : Commit.result plan stamp = .leaf (.string stamp.text) := by
          rw [Commit.result, ← Except.ok.inj accepted]
        rw [result] at made
        generalize f₀.type = type at made single found
        cases type with
        | list item nonNull => cases single
        | named name nonNull =>
          have found : s.catalog.type? name = some scalar := found
          unfold outcome at made
          rw [found] at made
          obtain ⟨shown, inner, rfl⟩ := result_map made
          simp only [Watched.value, body] at inner
          refine ⟨shown, rfl, ?_⟩
          obtain rfl : Datum.string stamp.text = shown := by
            have left := result_own inner
            simp only [Complete.value, body] at left
            exact Except.ok.inj left
          exact .text
      · cases accepted
    | reference table =>
      simp only [kind] at accepted
      split at accepted
      · cases accepted
      · split at accepted
        · rw [FieldShape.classify_reference classified kind] at made
          have rows := FieldShape.classify_rows classified (by simp [kind])
          obtain ⟨inside, fields, found, body⟩ :=
            grounded.object_of_kindOf (rows.imp And.left And.left)
          unfold outcome at made
          rw [found] at made
          obtain ⟨shown, inner, rfl⟩ := result_map made
          simp only [Watched.value, body] at inner
          obtain ⟨members, rfl⟩ := composes _ _ _ _ _ inner
          exact ⟨_, rfl, .object⟩
        · cases accepted

theorem Watched.close_ok {σ : Type} {v : Visit} {w : Watch σ (Option Datum)} {d : Option Datum}
    (result : w.result = .ok d) :
    close v w = ⟨.ok d, w.run, [.position { v with answer := .ok d } w.seen]⟩ := by
  unfold close
  rw [result]

theorem Watched.close_stopped {σ : Type} {v : Visit} {w : Watch σ (Option Datum)} {fault : Fault}
    (result : w.result = .error fault) (nullable : v.place.nullable = true) :
    close v w = ⟨.ok none,
      { w.run with absorbed := w.run.absorbed ++ [Exec.located v.place.path fault.error] },
      [.position { v with raised := fault.raised?, answer := .ok none } w.seen]⟩ := by
  unfold close
  rw [result]
  simp only [nullable, if_true]

namespace Receipts

-- A position closes with a receipt if nothing inside of it has sent anything, and its own value
-- confirms what it has sent itself.
theorem close {key : String} {v : Visit} {w : Watch Memory (Option Datum)} {r q : Run Memory}
    (path : v.place.path = [.field key]) (idle : ∀ u ∈ Invocation.visitsOf w.seen, x.schema.sent u = [])
    (accounts : Accounts [.field key] q w) (fails : FailsAt [.field key] w.result)
    (own : ∀ stamp, x.schema.Stamps r.store v stamp → v.place.nullable = true ∧
      ∀ d, w.result = .ok d → ∃ shown, d = some shown ∧ Confirms stamp shown) :
    Receipts x r ⟨(Watched.close v w).result.map fun d => [(key, d.getD .null)],
      (Watched.close v w).run, (Watched.close v w).seen⟩ := by
  intro before u after split stamp stamps
  obtain ⟨v', closed⟩ := Watched.close_closed v w
  rw [closed.seen, Invocation.visitsOf_position] at split
  cases before with
  | cons first before =>
    obtain ⟨_, inside⟩ := List.cons.inj split
    obtain ⟨op, sent, _⟩ := stamps
    rw [idle u (inside ▸ List.mem_append_right _ List.mem_cons_self)] at sent
    cases sent
  | nil =>
    obtain ⟨rfl, _⟩ := List.cons.inj split
    have stamped : x.schema.Stamps r.store v stamp := by
      obtain ⟨op, sent, taken⟩ := stamps
      refine ⟨op, ?_, taken⟩
      unfold Schema.sent at sent ⊢
      rwa [closed.place] at sent
    obtain ⟨nullable, shows⟩ := own stamp stamped
    have seen := closed.seen
    cases result : w.result with
    | ok d =>
      obtain ⟨shown, rfl, confirms⟩ := shows d result
      rw [Watched.close_ok result] at seen ⊢
      obtain ⟨rfl, _⟩ := Invocation.position.inj (List.cons.inj seen).1
      refine .shown path rfl confirms fun results same => ?_
      obtain rfl := Except.ok.inj same
      exact List.mem_singleton_self _
    | error fault =>
      rw [Watched.close_stopped result nullable] at seen ⊢
      obtain ⟨rfl, _⟩ := Invocation.position.inj (List.cons.inj seen).1
      let stop : Visit := { v with raised := fault.raised?, answer := .ok none }
      rw [← path] at accounts fails
      obtain ⟨meets, _⟩ := Accounts.meets (v := stop) accounts result rfl
      have reported := meets.reported fun i member left => (accounts.propagate i member).left_reported left
      refine .failed (e := Exec.located v.place.path fault.error) path rfl ?_ ?_
      · rw [Invocation.errorsOf_singleton]
        exact reported
      · change v.place.path <+: (Exec.located v.place.path fault.error).path
        rw [Exec.located_path]
        split
        · exact List.prefix_rfl
        · exact (fails fault result).resolve_left ‹_›

section

variable (memory : x.backend = Memory.backend) (built : x.schema.Built) {root : TypeDef}
  (known : x.schema.catalog.type? root.name = some root)

include memory built known

-- The invocation of a field of the root. Only the field itself can have sent anything, and of what
-- is below it only the errors matter.
theorem invocation {key : String} {loc : Location} {f : FieldDef} (children : List Node)
    (declared : root.field? f.name = some f) (arguments : Arguments) {r : Run Memory}
    (unplaced : Unplaced r.marks) :
    let object : Watched.ObjectData Memory := fun t o here =>
      Datum.ofResults <$> x.watchSelections t o here children
    let w := x.watchInvocation root .root [.field key] loc object f arguments r
    Receipts x r ⟨w.result.map fun d => [(key, d.getD .null)], w.run, w.seen⟩ := by
  intro object w
  have grounded := built.grounded
  have resolved := x.declaredField_declared root.name f.name [.field key] loc arguments .root r
  obtain ⟨v, place, closes⟩ :=
    x.watchInvocation_close root .root [.field key] loc object f arguments r
  have path : v.place.path = [.field key] := by rw [place]
  have sent : x.schema.sent v = x.schema.sends root.name f.name arguments := by
    unfold Schema.sent
    rw [place]
  have handedOn {stamp : Versionstamp} (stamps : x.schema.Stamps r.store v stamp) :
      ∃ plan r', FieldMap.get? x.schema.resolvers root.name f.name = some (.mutation plan) ∧
        x.declaredField root.name f.name [.field key] loc arguments .root r =
          (.ok (some (Commit.result plan stamp)), r') := by
    obtain ⟨op, member, taken⟩ := stamps
    exact x.declaredField_stamped memory (sent ▸ member) taken
  change Receipts x r ⟨(x.watchInvocation _ _ _ _ _ _ _ r).result.map _,
    (x.watchInvocation _ _ _ _ _ _ _ r).run, (x.watchInvocation _ _ _ _ _ _ _ r).seen⟩
  rw [closes]
  rcases ran : x.declaredField root.name f.name [.field key] loc arguments .root r with ⟨e | o, r'⟩
  · rw [ran] at resolved
    have silent := resolved.silent
    refine close path (fun _ absurd => nomatch absurd)
      (.raise _ r' (.inl (silent.error e rfl)) (silent.unplaced unplaced))
      (Upright.fails_error (.inl (silent.error e rfl))) fun stamp stamps => ?_
    obtain ⟨_, _, _, same⟩ := handedOn stamps
    cases ran.symm.trans same
  · rw [ran] at resolved
    have kept := resolved.silent.unplaced unplaced
    refine close (q := r') path (fun u member => ?_) ?_ ?_ fun stamp stamps => ?_
    · have harmless := Harmless.outcome (p := [.field key]) grounded known declared
        ((Harmless.law (x := x) grounded).ofObjects children) resolved u member
      unfold Schema.sent
      cases asked : u.place.asked with
      | none => rfl
      | some a =>
        have nothing := Schema.sent_unwriting asked (harmless a asked)
        unfold Schema.sent at nothing
        rwa [asked] at nothing
    · exact Accounts.steps.ofOutcome (c := x.schema.catalog) (fun _ _ _ _ _ _ _ _ => trivial)
        ((accounts_law x).ofObjects children) loc f.type [.field key] o r'
        (fun found _ => fits_of_known (fun _ _ _ _ => trivial) _ found) kept
    · refine (Upright.steps.ofOutcome (c := x.schema.catalog) (fun _ _ _ _ _ _ _ ok => ok)
        ((Upright.law built).ofObjects children) loc f.type [.field key] o r'
        (fun found same => ?_) kept).2
      subst same
      obtain ⟨resolver, served⟩ := resolved.served
      exact fits_of_type (fun t found => grounded.inner_of_field known declared served found) found
    · obtain ⟨plan, _, served, same⟩ := handedOn stamps
      obtain ⟨answer, rfl⟩ := Prod.mk.inj (ran.symm.trans same)
      obtain rfl := Except.ok.inj answer
      have nullable : f.type.nullable = true := by
        obtain ⟨f₀, rfl, serves⟩ := grounded.meets known declared served
        generalize root.name = type at serves
        cases serves with
        | mutation _ mutates =>
          rw [show f₀.distinctArguments.type = f₀.type from rfl, TypeExpr.nullable, mutates.nullable]
          rfl
      refine ⟨by rw [place]; exact nullable, fun d result => ?_⟩
      exact Watched.outcome_result grounded known declared served (composes_shown x children) result

theorem field {head : FieldHead} {f : FieldDef} (children : List Node)
    (declared : root.field? f.name = some f) {r : Run Memory} (unplaced : Unplaced r.marks) :
    let object : Watched.ObjectData Memory := fun t o here =>
      Datum.ofResults <$> x.watchSelections t o here children
    let w := x.watchField root .root [] head object f r
    Receipts x r ⟨w.result.map fun d => [(head.key, d.getD .null)], w.run, w.seen⟩ := by
  intro object w
  rcases x.arguments_apply f head r with ⟨arguments, ran⟩ | ⟨e, _, ran⟩
  · have read : Watched.own (x.arguments f head) r = ⟨.ok arguments, r, []⟩ := by
      unfold Watched.own
      rw [ran]
    have same : w = x.watchInvocation root .root [.field head.key] head.loc object f arguments r := by
      change x.watchField _ _ _ _ _ _ r = _
      unfold Execution.watchField
      rw [Watched.bind_of_ok (congrArg Watch.result read), read]
      rfl
    rw [same]
    exact invocation memory built known children declared arguments unplaced
  · have read : Watched.own (x.arguments f head) r = ⟨.error (.raised e), r, []⟩ := by
      unfold Watched.own
      rw [ran]
    have same : w.seen = [] := by
      change (x.watchField _ _ _ _ _ _ r).seen = _
      unfold Execution.watchField
      rw [Watched.bind_of_error (congrArg Watch.result read), read]
    exact idle (by rw [same]; rfl)

mutual

theorem selection : ∀ (n : Node) (r : Run Memory), Unplaced r.marks →
    Receipts x r (x.watchSelection root .root [] n r)
  | .group condition _ children, r, unplaced => by
    rw [Execution.watchSelection]
    split
    · exact selections children r unplaced
    · exact idle rfl
  | .field head children, r, unplaced => by
    rw [Execution.watchSelection]
    split
    · exact idle rfl
    · cases x.entrance? root head.name with
      | some f =>
        obtain ⟨_, stopped, left, seen⟩ := x.watchDescription_record [] head f children r
        simp only
        rw [← Watched.map_eq_bind, Watched.map_apply]
        exact idle (by rw [seen]; rfl)
      | none =>
        cases declared : root.field? head.name with
        | none => exact idle rfl
        | some f =>
          have named : f.name = head.name := by simpa using List.find?_some declared
          simp only
          rw [← Watched.map_eq_bind, Watched.map_apply]
          exact field memory built known children (named ▸ declared) unplaced

-- Selections take their turns at the store one after another.
theorem selections : ∀ (nodes : List Node) (r : Run Memory), Unplaced r.marks →
    Receipts x r (x.watchSelections root .root [] nodes r)
  | [], r, _ => by
    rw [Execution.watchSelections]
    exact idle rfl
  | n :: rest, r, unplaced => by
    have first := selection n r unplaced
    have later := selections rest (x.watchSelection root .root [] n r).run
      ((accounts_law x).ofSelection n [] r trivial unplaced).unplaced
    rw [Execution.watchSelections]
    cases result : (x.watchSelection root .root [] n r).result with
    | error fault =>
      rw [Watched.bind_of_error result]
      exact stop first
    | ok results =>
      rw [Watched.bind_of_ok result, ← Watched.map_eq_bind, Watched.map_apply]
      exact append memory first result ((SendsListed.law x).ofSelection n [] r trivial) later

end

end

end Receipts

-- How the response to an operation shows that a field has committed.
inductive Acknowledged (response : Response) (asked : List Choice) (v : Visit)
    (stamp : Versionstamp) : Prop where
  | shown {d joined : Datum} : v.answer = .ok (some d) → Confirms stamp d →
      response.data.at? v.place.path = some joined → joined ≠ .null →
      Acknowledged response asked v stamp
  -- The field is null because of an error, its own or one from below it.
  | failed {e : ResponseError} : v.answer = .ok none → e ∈ response.errors →
      v.place.path <+: e.path → Acknowledged response asked v stamp
  -- Another field has failed outside of all positions that may be null.
  | lost {d : Datum} : v.answer = .ok (some d) → Confirms stamp d → response.data = .null →
      response.errors ≠ [] → Acknowledged response asked v stamp
  -- The response key was null already when the field had its turn.
  | hidden {key : String} {d : Datum} : v.answer = .ok (some d) → Confirms stamp d →
      v.place.path = [.field key] → response.data.at? [.field key] = some .null →
      2 ≤ (asked.map Choice.key).count key → Acknowledged response asked v stamp

theorem Datum.join_ne_null {a : Datum} (present : a ≠ .null) (b : Datum) : join a b ≠ .null := by
  rcases join_cases a b with same | ⟨_, _, _, _, same⟩
  · rw [same]
    rcases joinItem_cases a b with same | ⟨_, _, _, _, same⟩
    · rwa [same]
    · rw [same]
      exact fun absurd => nomatch absurd
  · rw [same]
    exact fun absurd => nomatch absurd

-- What is shown under a key is null only where the first result was.
theorem Datum.foldl_join_null {first : Datum} (more : List Datum) :
    more.foldl join first = .null ↔ first = .null := by
  induction more generalizing first with
  | nil => rfl
  | cons d rest ih =>
    rw [List.foldl_cons, ih]
    refine ⟨fun null => ?_, fun null => ?_⟩
    · by_contra present
      exact join_ne_null present d null
    · obtain ⟨q, whole, met⟩ := (keeps_join []).1 first d (null ▸ meetsNull_null [])
      obtain rfl := List.prefix_nil.mp whole
      exact Option.some.inj met

theorem Receipt.acknowledged {w : Watch Memory (List (String × Datum))} {asked : List Choice}
    {v : Visit} {stamp : Versionstamp} (receipt : Receipt w v stamp)
    (reported : Invocation.errorsOf w.seen ⊆ w.response.errors)
    (keys : ∀ results, w.result = .ok results → (results.map (·.1)).Sublist (asked.map Choice.key)) :
    Acknowledged w.response asked v stamp := by
  cases receipt with
  | failed _ answer there below => exact .failed answer (reported there) below
  | @shown key d path answer confirms inside =>
    cases result : w.result with
    | error fault =>
      have response : w.response = ⟨.null, fault.error :: (w.run.caught ++ w.run.absorbed)⟩ := by
        rw [Watch.response, result]
      rw [response]
      exact .lost answer confirms rfl (List.cons_ne_nil _ _)
    | ok results =>
      have data : w.response.data = Datum.ofResults results := by
        rw [Watch.response, result]
      have there : d ∈ Members.valuesOf key results := Members.mem_valuesOf.mpr (inside results result)
      have found : w.response.data.at? [.field key] =
          Datum.together none (Members.valuesOf key results) := by
        rw [data, Datum.ofResults, Datum.at?, Datum.get?_addMembers]
        change (Datum.together none (Members.valuesOf key results)).bind (Datum.at? []) = _
        cases Datum.together none (Members.valuesOf key results) <;> rfl
      cases values : Members.valuesOf key results with
      | nil =>
        rw [values] at there
        cases there
      | cons first more =>
        have shown : w.response.data.at? [.field key] = some (more.foldl Datum.join first) := by
          rw [found, values]
          exact Datum.together_some first more
        by_cases null : first = .null
        · rw [(Datum.foldl_join_null more).mpr null] at shown
          refine .hidden answer confirms path shown ?_
          have several : 2 ≤ (Members.valuesOf key results).length := by
            rw [values] at there ⊢
            rcases List.mem_cons.mp there with same | later
            · exact absurd (same.trans null) confirms.nonNull
            · have some := List.length_pos_of_mem later
              rw [List.length_cons]
              omega
          rw [Members.length_valuesOf] at several
          exact several.trans ((keys results result).count_le key)
        · refine .shown answer confirms (path ▸ shown) ?_
          exact mt (Datum.foldl_join_null more).mp null

theorem commits_acknowledged {s : Schema} (built : s.Built) {request : Request}
    {m : Request.Measured} (prepared : request.prepare s = .ok m) {root : TypeDef}
    (rooted : (s.catalog.root? m.operation.kind).bind s.catalog.type? = some root)
    (store : Memory) :
    let x : Execution Memory := ⟨s, Memory.backend, m.operation.variableDefs, request.values⟩
    let w := x.watch root m.nodes store
    w.erase = x.selections root .root [] m.nodes { store } ∧
      (s.execute Memory.backend request store).store =
        store.commitAll ((Invocation.visitsOf w.seen).flatMap s.sent) ∧
      ∃ response, (s.execute Memory.backend request store).response = some response ∧
        ∀ before v after, Invocation.visitsOf w.seen = before ++ v :: after → ∀ stamp,
          s.Stamps (store.commitAll (before.flatMap s.sent)) v stamp →
            (∃ key, v.place.path = [.field key]) ∧
              Acknowledged response (Node.shown root.name m.nodes) v stamp := by
  intro x w
  obtain ⟨name, _, found⟩ := Option.bind_eq_some_iff.mp rooted
  have known := Catalog.type?_name found
  have sends : SendsListed x _ [] { store } w :=
    (SendsListed.law x).ofSelections m.nodes [] { store } trivial
  refine ⟨(Records.selections x root .root [] m.nodes { store }).symm, ?_, w.response, ?_, ?_⟩
  · rw [Schema.execute_run prepared rooted]
    exact Memory.commitAll_of_sends sends
  · rw [Schema.execute_run prepared rooted]
  · intro before v after split stamp stamps
    have unplaced : Unplaced ({ store } : Run Memory).marks := fun _ _ absurd => nomatch absurd
    have receipt := Receipts.selections (x := x) rfl built known m.nodes { store } unplaced
      before v after split stamp stamps
    refine ⟨?_, receipt.acknowledged ?_ ?_⟩
    · cases receipt with
      | shown path => exact ⟨_, path⟩
      | failed path => exact ⟨_, path⟩
    · have accounts := x.watch_accounts root m.nodes store
      exact List.Subset.trans (List.subset_append_right _ _) (accounts.reported ⟨rfl, rfl⟩).symm.subset
    · exact (Collects.selections built.grounded built.closed known .root [] m.nodes { store }).keys

-- A shop whose mutations result in a stamp, beside which a flag is declared that no commit sets.
def receiptShop : String :=
  Overview.ask "type Query" ["book(id: ID): Book"] ++ Overview.ask "type Book" ["title: String"] ++
  Overview.ask "type Mutation" ["write(input: Write): Receipt"] ++
  Overview.ask "type Receipt" ["versionstamp: String!", "flag: Boolean!"] ++
  Overview.ask "input Write" ["add: Put @create(table: \"Book\")"] ++
  Overview.ask "input Put" ["id: ID"]

-- A book is added, and one field of the result is asked for.
def receiptRequest (field : String) : Request :=
  { source := Overview.ask "mutation"
      [Overview.ask "write(input: \x7badd: \x7bid: \"2\"\x7d\x7d)" [field]] }

theorem stamp_acknowledged : ∃ (s : Schema) (m : Request.Measured) (root : TypeDef) (v : Visit)
    (after : List Visit) (response : Response),
    s.Built ∧ (receiptRequest "versionstamp").prepare s = .ok m ∧
    (s.catalog.root? m.operation.kind).bind s.catalog.type? = some root ∧
    (s.execute Memory.backend (receiptRequest "versionstamp") Memory.empty).response = some response ∧
    let x : Execution Memory := ⟨s, Memory.backend, m.operation.variableDefs, []⟩
    Invocation.visitsOf (x.watch root m.nodes Memory.empty).seen = v :: after ∧
    s.Stamps Memory.empty v (.ofCounter 1) ∧
    Acknowledged response (Node.shown root.name m.nodes) v (.ofCounter 1) := by
  have ready : (do
      let s ← (Session.build {} receiptShop []).toOption
      let m ← ((receiptRequest "versionstamp").prepare s).toOption
      let root ← (s.catalog.root? m.operation.kind).bind s.catalog.type?
      let x : Execution Memory := ⟨s, Memory.backend, m.operation.variableDefs, []⟩
      let v ← (Invocation.visitsOf (x.watch root m.nodes Memory.empty).seen).head?
      let op ← (s.sent v).head?
      pure (Memory.empty.commit op).1) = some (.ok (some (.ofCounter 1))) := by
    decide +kernel
  simp only [Option.bind_eq_bind, Option.bind_eq_some_iff, Option.pure_def, Option.some.injEq] at ready
  obtain ⟨s, made, m, measured, root, rooted, v, first, op, sent, taken⟩ := ready
  have built : s.Built := ⟨{}, receiptShop, [], ok_of_toOption made⟩
  obtain ⟨after, visits⟩ := List.head?_eq_some_iff.mp first
  have stamps : s.Stamps Memory.empty v (.ofCounter 1) := ⟨op, List.mem_of_mem_head? sent, taken⟩
  have prepared := ok_of_toOption measured
  obtain ⟨_, _, response, answered, each⟩ :=
    commits_acknowledged built prepared (Option.bind_eq_some_iff.mpr rooted) Memory.empty
  exact ⟨s, m, root, v, after, response, built, prepared, Option.bind_eq_some_iff.mpr rooted,
    answered, visits, stamps, (each [] v after visits _ stamps).2⟩

-- The book has been added, but what is shown of the mutation is null, since its flag has no value.
theorem flag_unacknowledged : ∃ (s : Schema) (response : Response), s.Built ∧
    (s.execute Memory.backend (receiptRequest "flag") Memory.empty).store ≠ Memory.empty ∧
    (s.execute Memory.backend (receiptRequest "flag") Memory.empty).response = some response ∧
    response.data.at? [.field "write"] = some .null ∧
    response.errors.map ResponseError.path = [[.field "write", .field "flag"]] := by
  have shown : ((Session.build {} receiptShop []).toOption.bind fun s =>
      (s.execute Memory.backend (receiptRequest "flag") Memory.empty).response.bind fun r =>
      (r.data.at? [.field "write"]).map fun d => (d.isNull, r.errors.map ResponseError.path,
        (s.execute Memory.backend (receiptRequest "flag") Memory.empty).store.version)) =
      some (true, [[.field "write", .field "flag"]], .ofCounter 1) := by
    decide +kernel
  obtain ⟨s, made, shown⟩ := Option.bind_eq_some_iff.mp shown
  obtain ⟨response, answered, shown⟩ := Option.bind_eq_some_iff.mp shown
  obtain ⟨d, there, shown⟩ := Option.map_eq_some_iff.mp shown
  simp only [Prod.mk.injEq] at shown
  obtain ⟨null, paths, version⟩ := shown
  refine ⟨s, response, ⟨{}, receiptShop, [], ok_of_toOption made⟩, fun same => ?_, answered, ?_, paths⟩
  · rw [same] at version
    exact absurd version (by decide)
  · rw [there]
    cases d <;> first | rfl | cases null

end RowGraph
