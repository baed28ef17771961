import RowGraph.Proofs.Execution.Declared
import RowGraph.Proofs.Propagation.Request
import RowGraph.Proofs.Propagation.Sending
import RowGraph.Proofs.Store.Noted
/-!
What the fields of a request ask of the store. A field looks up one row for every id that it has been
given or that its parent holds, in their order, or sends one operation; it is over with the first
fault. Main statement: what has been noted of a store are the calls of the fields, one field after
another, and a field whose last call has met a fault has raised it.
-/

namespace RowGraph

variable {σ α β : Type}

namespace Resolve

-- Ids are taken one by one up to the first that is none.
def rootIds : List Datum → List RowId
  | [] => []
  | d :: rest =>
    if d.isNull then rootIds rest
    else match idOfDatum? d with
      | some id => id :: rootIds rest
      | none => []

def rootKeys (argument : String) (shape : FieldShape) (arguments : Arguments) : List Key :=
  match shape.kind, argument? arguments argument with
  | .reference table, some d => (idOfDatum? d).toList.map (Key.mk table)
  | .referenceList table _, some (.list ids) => (rootIds ids).map (Key.mk table)
  | _, _ => []

def linkKeys (column : String) (shape : FieldShape) : Outcome → List Key
  | .row row =>
    match shape.kind, stored? row column with
    | .reference table, some v => (RowId.ofValue? v).toList.map (Key.mk table)
    | .referenceList table _, some (.array items) =>
      (items.filterMap fun v => (present? v).bind RowId.ofValue?).map (Key.mk table)
    | _, _ => []
  | .leaf _ | .list _ => []

end Resolve

-- The rows that a resolver looks up: one for every id.
def Resolver.lookups : Resolver → Arguments → Outcome → List Key
  | .root argument shape, arguments, _ => Resolve.rootKeys argument shape arguments
  | .reference name shape, _, parent => Resolve.linkKeys name shape parent
  | .column _, _, _ => []
  | .value, _, _ => []
  | .mutation _, _, _ => []

namespace Schema

def fieldLookups (s : Schema) (a : Asked) : List Key :=
  match s.refusal? a.type a.field a.arguments, FieldMap.get? s.resolvers a.type a.field with
  | none, some resolver => resolver.lookups a.arguments a.parent
  | _, _ => []

def lookups (s : Schema) (v : Visit) : List Key :=
  match v.place.asked with
  | some a => s.fieldLookups a
  | none => []

-- All calls of a field. A field that looks something up sends nothing.
def fieldCalls (s : Schema) (a : Asked) : List Call :=
  (s.fieldLookups a).map .get ++ (s.sends a.type a.field a.arguments).map .commit

def calls (s : Schema) (v : Visit) : List Call := (s.lookups v).map .get ++ (s.sent v).map .commit

theorem calls_unasked {s : Schema} {v : Visit} (unasked : v.place.asked = none) : s.calls v = [] := by
  unfold calls lookups sent
  rw [unasked]
  rfl

end Schema

-- A computation has made some calls. A fault has put an end to it, and nothing but the store has
-- changed then.
def Made (calls : List Call) (r : Run (Diary σ)) (result : Except GraphError α)
    (r' : Run (Diary σ)) : Prop :=
  ∃ events fault, Follows calls events fault ∧ r'.store.events = r.store.events ++ events ∧
    ∀ e, fault = some e → result = .error (.store e) ∧ r' = { r with store := r'.store }

def Makes (calls : List Call) (x : Resolving (Diary σ) α) : Prop := ∀ r, Made calls r (x r).1 (x r).2

-- There is a result, unless there was a fault.
inductive Unless : Option StoreError → Except GraphError α → Prop where
  | fine (a : α) : Unless none (.ok a)
  | fault (e : StoreError) : Unless (some e) (.error (.store e))

-- Nothing but a fault keeps it from a result.
def Looks (calls : List Call) (x : Resolving (Diary σ) α) : Prop :=
  ∀ r, ∃ events fault, Follows calls events fault ∧
    (x r).2.store.events = r.store.events ++ events ∧ (x r).2 = { r with store := (x r).2.store } ∧
    Unless fault (x r).1

namespace Made

theorem idle {r r' : Run (Diary σ)} {result : Except GraphError α} (kept : r'.store = r.store) :
    Made [] r result r' :=
  ⟨[], none, .done, by rw [kept, List.append_nil], fun _ absurd => nomatch absurd⟩

end Made

namespace Looks

theorem makes {calls : List Call} {x : Resolving (Diary σ) α} (looks : Looks calls x) :
    Makes calls x := by
  intro r
  obtain ⟨events, fault, follows, noted, same, ended⟩ := looks r
  refine ⟨events, fault, follows, noted, fun e failed => ⟨?_, same⟩⟩
  subst failed
  generalize (x r).1 = result at ended ⊢
  cases ended with
  | fault => rfl

theorem pure (a : α) : Looks [] (Pure.pure a : Resolving (Diary σ) α) :=
  fun _ => ⟨[], none, .done, (List.append_nil _).symm, rfl, .fine a⟩

theorem map {calls : List Call} {x : Resolving (Diary σ) α} (looks : Looks calls x)
    {f : α → Resolving (Diary σ) β} (plain : ∀ a, ∃ c, f a = Pure.pure c) :
    Looks calls (x >>= f) := by
  intro r
  obtain ⟨events, fault, follows, noted, same, ended⟩ := looks r
  rw [bind_apply]
  rcases ran : x r with ⟨result, r'⟩
  rw [ran] at noted same ended
  cases ended with
  | fault e => exact ⟨events, some e, follows, noted, same, .fault e⟩
  | fine a =>
    obtain ⟨c, shown⟩ := plain a
    simp only [shown]
    exact ⟨events, none, follows, noted, same, .fine c⟩

-- What comes next is reached just if there was no fault.
theorem before {calls calls' : List Call} {x : Resolving (Diary σ) α}
    {f : α → Resolving (Diary σ) β} (first : Looks calls x) (rest : ∀ a, Makes calls' (f a)) :
    Makes (calls ++ calls') (x >>= f) := by
  intro r
  obtain ⟨events, fault, follows, noted, same, ended⟩ := first r
  rw [bind_apply]
  rcases ran : x r with ⟨result, r'⟩
  rw [ran] at noted same ended
  cases ended with
  | fault e =>
    refine ⟨events, some e, follows.stopped calls', noted, fun e' stopped => ?_⟩
    rw [Option.some.inj stopped]
    exact ⟨rfl, same⟩
  | fine a =>
    obtain ⟨events', fault, follows', noted', failed⟩ := rest a r'
    refine ⟨events ++ events', fault, follows.append follows', ?_, fun e stopped => ?_⟩
    · rw [noted', noted, List.append_assoc]
    · obtain ⟨ended, kept⟩ := failed e stopped
      have same : r' = { r with store := r'.store } := same
      refine ⟨ended, kept.trans ?_⟩
      rw [same]

end Looks

namespace Makes

theorem idle {x : Resolving (Diary σ) α} (kept : ∀ r, (x r).2.store = r.store) : Makes [] x :=
  fun r => .idle (kept r)

theorem pure (a : α) : Makes [] (Pure.pure a : Resolving (Diary σ) α) := idle fun _ => rfl

theorem lift (y : Except GraphError α) : Makes [] (liftM y : Resolving (Diary σ) α) :=
  idle fun _ => by cases y <;> rfl

theorem given {calls : List Call} {a : α} {f : α → Resolving (Diary σ) β} (rest : Makes calls (f a)) :
    Makes calls ((liftM (Except.ok a : Except GraphError α) : Resolving (Diary σ) α) >>= f) :=
  fun r => rest r

-- What comes last makes no calls.
theorem thenIdle {calls : List Call} {x : Resolving (Diary σ) α} {f : α → Resolving (Diary σ) β}
    (first : Makes calls x) (rest : ∀ a r, (f a r).2.store = r.store) : Makes calls (x >>= f) := by
  intro r
  obtain ⟨events, fault, follows, noted, failed⟩ := first r
  rw [bind_apply]
  rcases ran : x r with ⟨e | a, r'⟩
  · rw [ran] at noted failed
    refine ⟨events, fault, follows, noted, fun e' stopped => ?_⟩
    obtain ⟨result, kept⟩ := failed e' stopped
    exact ⟨by rw [Except.error.inj result], kept⟩
  · rw [ran] at noted failed
    refine ⟨events, fault, follows, ?_, fun e stopped => ?_⟩
    · rw [← noted]
      simp only
      rw [rest a r']
    · obtain ⟨result, _⟩ := failed e stopped
      cases result

end Makes

namespace Resolve

variable {b : Backend σ}

theorem fetch_looks (key : Key) : Looks [.get key] (fetch b.noted key) := by
  intro r
  unfold fetch
  rcases found : b.get key r.store.store with ⟨e | e?, s⟩
  · simp only [Backend.noted, Diary.got, found]
    exact ⟨[.got key (.error e)], some e, .fault (.got key (.error e)) rfl, rfl, trivial, .fault e⟩
  · simp only [Backend.noted, Diary.got, found]
    exact ⟨[.got key (.ok e?)], none, .next (.got key (.ok e?)) rfl .done, rfl, trivial, .fine e?⟩

theorem rootRow_looks (argument table : String) (entry : Bool) {d : Datum} {id : RowId}
    (named : idOfDatum? d = some id) :
    Looks [.get ⟨table, id⟩] (rootRow b.noted argument table entry d) := by
  unfold rootRow argumentId
  rw [named]
  exact (fetch_looks ⟨table, id⟩).map fun e => ⟨_, rfl⟩

theorem rootRow_makes (argument table : String) (entry : Bool) (d : Datum) :
    Makes ((idOfDatum? d).toList.map fun id => .get ⟨table, id⟩)
      (rootRow b.noted argument table entry d) := by
  cases named : idOfDatum? d with
  | some id => exact (rootRow_looks argument table entry named).makes
  | none =>
    unfold rootRow argumentId
    rw [named]
    exact .idle fun _ => rfl

theorem rootRows_makes (argument table : String) (entry : Bool) (ds : List Datum) :
    Makes ((rootIds ds).map fun id => .get ⟨table, id⟩)
      (rootRows b.noted argument table entry ds) := by
  induction ds with
  | nil => exact .pure _
  | cons d rest ih =>
    have later (row : Option Outcome) :
        Makes ((rootIds rest).map fun id => .get ⟨table, id⟩) (do
          let rows ← rootRows b.noted argument table entry rest
          pure (row :: rows)) :=
      ih.thenIdle fun _ _ => rfl
    rw [rootRows, rootIds]
    cases d.isNull with
    | true => exact (Looks.pure (none : Option Outcome)).before later
    | false =>
      simp only [Bool.false_eq_true, if_false]
      cases named : idOfDatum? d with
      | some id => exact (rootRow_looks argument table entry named).before later
      | none =>
        unfold rootRow argumentId
        rw [named]
        exact .idle fun _ => rfl

theorem follow_looks (column table : String) (entry required : Bool) (v : Option Value) :
    Looks ((v.bind RowId.ofValue?).toList.map fun id => .get ⟨table, id⟩)
      (follow b.noted column table entry required v) := by
  unfold follow
  cases v with
  | none => exact .pure _
  | some v =>
    simp only [referencedId, Option.bind_some]
    cases RowId.ofValue? v with
    | none => exact .pure _
    | some id =>
      refine (fetch_looks ⟨table, id⟩).map fun e => ?_
      cases e with
      | none => exact ⟨_, rfl⟩
      | some e => exact ⟨_, rfl⟩

theorem followAll_makes (column table : String) (entry required : Bool) (vs : List Value) :
    Makes ((vs.filterMap fun v => (present? v).bind RowId.ofValue?).map fun id => .get ⟨table, id⟩)
      (followAll b.noted column table entry required vs) := by
  induction vs with
  | nil => exact .pure _
  | cons v rest ih =>
    have calls : ((v :: rest).filterMap fun v => (present? v).bind RowId.ofValue?) =
        ((present? v).bind RowId.ofValue?).toList ++
          rest.filterMap fun v => (present? v).bind RowId.ofValue? := by
      rw [List.filterMap_cons]
      cases (present? v).bind RowId.ofValue? <;> rfl
    rw [calls, List.map_append, followAll]
    exact (follow_looks column table entry required (present? v)).before fun link =>
      ih.thenIdle fun _ _ => rfl

theorem rootElements_idle (path : Path) (loc : Location) (rows : List (Option Outcome)) (index : Nat)
    (r : Run (Diary σ)) : (rootElements path loc index rows r).2.store = r.store := by
  obtain ⟨os, r', ran, _, marking⟩ := rootElements_marks path loc rows index r
  rw [ran]
  exact marking.store

theorem linkElements_idle (path : Path) (loc : Location) (required : Bool) (links : List Link)
    (index : Nat) (r : Run (Diary σ)) :
    (linkElements path loc required index links r).2.store = r.store := by
  obtain ⟨result, r', ran, _, marking⟩ := linkElements_marks path loc required links index r
  rw [ran]
  exact marking.store

theorem placed_idle {place : Resolving (Diary σ) (List Outcome)}
    (kept : ∀ r, (place r).2.store = r.store) (r : Run (Diary σ)) :
    ((place >>= fun os => pure (some (.list os)) : Resolving (Diary σ) (Option Outcome)) r).2.store =
      r.store := by
  rw [bind_apply, ← kept r]
  rcases place r with ⟨_ | _, _⟩ <;> rfl

theorem root_makes (argument : String) (shape : FieldShape) (path : Path) (loc : Location)
    (arguments : Arguments) :
    Makes ((rootKeys argument shape arguments).map .get)
      (root b.noted argument shape path loc arguments) := by
  unfold root rootKeys
  cases shape.kind with
  | scalar => exact .idle fun _ => rfl
  | reference table =>
    cases argument? arguments argument with
    | none => exact .pure _
    | some d =>
      simp only [List.map_map]
      exact rootRow_makes argument table shape.entry d
  | referenceList table required =>
    cases argument? arguments argument with
    | none => exact .pure _
    | some d =>
      cases d with
      | list ids =>
        simp only [List.map_map]
        exact (rootRows_makes argument table shape.entry ids).thenIdle fun rows =>
          placed_idle (rootElements_idle path loc rows 0)
      | _ => exact .idle fun _ => rfl

theorem reference_makes (column : String) (shape : FieldShape) (path : Path) (loc : Location)
    (parent : Outcome) :
    Makes ((linkKeys column shape parent).map .get)
      (reference b.noted column shape path loc parent) := by
  unfold reference
  cases parent with
  | leaf d => exact .idle fun _ => rfl
  | list items => exact .idle fun _ => rfl
  | row row =>
    refine .given ?_
    simp only [linkKeys]
    cases shape.kind with
    | scalar => exact .idle fun _ => rfl
    | reference table =>
      have looks := (follow_looks (b := b) column table shape.entry shape.nonNull
        (stored? row column)).makes
      cases held : stored? row column with
      | none =>
        rw [held] at looks
        exact looks.thenIdle fun link _ => by cases link <;> rfl
      | some v =>
        rw [held] at looks
        simp only [List.map_map]
        exact looks.thenIdle fun link _ => by cases link <;> rfl
    | referenceList table required =>
      cases stored? row column with
      | none =>
        refine .idle fun _ => ?_
        cases shape.nonNull <;> rfl
      | some v =>
        cases v with
        | array items =>
          simp only [List.map_map]
          exact (followAll_makes column table shape.entry required items).thenIdle fun links =>
            placed_idle (linkElements_idle path loc required links 0)
        | _ => exact .idle fun _ => rfl

end Resolve

theorem Commit.mutation_makes (b : Backend σ) (plan : MutationPlan) (arguments : Arguments) :
    Makes ((sends plan arguments).map .commit) (mutation b.noted plan arguments) := by
  intro r
  unfold sends
  cases given : (Members.get? plan.argument arguments).bind Datum.asObject? with
  | none =>
    have ran := mutation_objectless b.noted given r
    change mutation b.noted plan arguments r = _ at ran
    rw [ran]
    exact .idle rfl
  | some input =>
    have ran := mutation_eq b.noted (object_given.mp given) r
    change mutation b.noted plan arguments r = _ at ran
    rw [ran]
    simp only
    cases operation plan input with
    | error e => exact .idle rfl
    | ok op =>
      simp only
      by_cases empty : op.isEmpty = true
      · simp only [if_pos empty]
        exact .idle rfl
      · simp only [if_neg empty, Backend.noted, Diary.committed, List.map_cons, List.map_nil]
        cases answer : (b.commit op r.store.store).1 with
        | ok stamp =>
          refine ⟨[.committed op (.ok stamp)], none, .next (.committed op _) rfl .done, rfl, ?_⟩
          intro _ absurd
          cases absurd
        | error e =>
          refine ⟨[.committed op (.error e)], some e, .fault (.committed op _) rfl, rfl, ?_⟩
          intro e' same
          rw [Option.some.inj same]
          exact ⟨rfl, rfl⟩

namespace Execution

theorem resolver_makes {x : Execution (Diary σ)} {b : Backend σ} (noted : x.backend = b.noted)
    (here : Path) (loc : Location) (arguments : Arguments) (parent : Outcome) (resolver : Resolver) :
    Makes ((resolver.lookups arguments parent).map .get ++ (resolver.sends arguments).map .commit)
      (x.resolver here loc arguments parent resolver) := by
  unfold Execution.resolver
  rw [noted]
  cases resolver with
  | root argument shape =>
    simp only [Resolver.sends, List.map_nil, List.append_nil]
    exact Resolve.root_makes argument shape here loc arguments
  | column name => exact .lift _
  | reference column shape =>
    simp only [Resolver.sends, List.map_nil, List.append_nil]
    exact Resolve.reference_makes column shape here loc parent
  | value => exact .lift _
  | mutation plan => exact Commit.mutation_makes b plan arguments

-- A declared field makes its calls. After a fault it is over, with nothing changed but the store.
theorem declaredField_makes {x : Execution (Diary σ)} {b : Backend σ} (noted : x.backend = b.noted)
    (type field : String) (here : Path) (loc : Location) (arguments : Arguments) (parent : Outcome)
    (r : Run (Diary σ)) :
    let ran := x.declaredField type field here loc arguments parent r
    ∃ events fault, Follows (x.schema.fieldCalls ⟨type, field, parent, arguments⟩) events fault ∧
      ran.2.store.events = r.store.events ++ events ∧
      ∀ e, fault = some e → ran.1 = .error ((GraphError.store e).raisedAt loc) ∧
        ran.2 = { r with store := ran.2.store, calls := ran.2.calls } := by
  intro ran
  have idle {r' : Run (Diary σ)} (kept : r'.store = r.store) : ∃ events fault,
      Follows [] events fault ∧ r'.store.events = r.store.events ++ events ∧
      ∀ e, fault = some e → ran.1 = .error ((GraphError.store e).raisedAt loc) ∧
        r' = { r with store := r'.store, calls := r'.calls } :=
    ⟨[], none, .done, by rw [kept, List.append_nil], fun _ absurd => nomatch absurd⟩
  let hooks := (FieldMap.get? x.schema.hooks type field).getD []
  let called : Run (Diary σ) := { r with calls := r.calls ++ Hook.calls type field arguments hooks }
  have guarded : ran = x.guarded hooks type field here loc arguments parent r :=
    x.declaredField_guarded type field here loc arguments parent r
  unfold Execution.guarded at guarded
  unfold Schema.fieldCalls Schema.fieldLookups Schema.sends
  dsimp only at guarded ⊢
  cases refusal : Hook.refusalAmong arguments hooks with
  | some message =>
    have refused : x.schema.refusal? type field arguments = some message := refusal
    have here : ran.2 = called := by rw [guarded, refusal]
    rw [refused, here]
    exact idle rfl
  | none =>
    have free : x.schema.refusal? type field arguments = none := refusal
    rw [free]
    cases known : FieldMap.get? x.schema.resolvers type field with
    | none =>
      have here : ran.2 = called := by rw [guarded, refusal, known]
      rw [here]
      exact idle rfl
    | some resolver =>
      obtain ⟨events, fault, follows, grown, failed⟩ :=
        x.resolver_makes noted here loc arguments parent resolver called
      have after : ran = ((x.resolver here loc arguments parent resolver called).1.mapError
          (·.raisedAt loc), (x.resolver here loc arguments parent resolver called).2) := by
        rw [guarded, refusal, known]
      rw [after]
      refine ⟨events, fault, follows, grown, fun e stopped => ?_⟩
      obtain ⟨result, kept⟩ := failed e stopped
      refine ⟨by rw [result]; rfl, ?_⟩
      rw [kept]

end Execution

-- What clients are told of a fault.
structure ResponseError.Masked (e : ResponseError) : Prop where
  message : e.message = "Internal Error"
  code : e.code = some "DbError"

-- What has been noted of an invocation. A fault that it has met is its own error.
def Consults (s : Schema) (v : Visit) (events : List Event) : Prop :=
  ∃ fault, Follows (s.calls v) events fault ∧
    (fault.isSome → ∃ e, v.raised = some e ∧ e.Masked)

def Consulted (x : Execution (Diary σ)) (α : Type) (_ : Path) (r : Run (Diary σ))
    (w : Watch (Diary σ) α) : Prop :=
  ∃ notes, List.Forall₂ (Consults x.schema) (Invocation.visitsOf w.seen) notes ∧
    w.run.store.events = r.store.events ++ notes.flatten

namespace Consulted

variable {x : Execution (Diary σ)}

theorem nothing {α : Type} {p : Path} {r : Run (Diary σ)} {result : Except Fault α} {run : Run (Diary σ)}
    (kept : run.store = r.store) : Consulted x α p r ⟨result, run, []⟩ :=
  ⟨[], .nil, by rw [kept]; exact (List.append_nil _).symm⟩

theorem close {v : Visit} {r r' : Run (Diary σ)} {w : Watch (Diary σ) (Option Datum)} {p : Path}
    {events : List Event} {fault : Option StoreError}
    (follows : Follows (x.schema.calls v) events fault)
    (grown : r'.store.events = r.store.events ++ events)
    (masked : fault.isSome → ∃ e, w.result = .error (.raised e) ∧ e.Masked)
    (inside : Consulted x _ p r' w) : Consulted x _ p r (Watched.close v w) := by
  obtain ⟨v', closed⟩ := Watched.close_closed v w
  obtain ⟨notes, each, noted⟩ := inside
  have same : x.schema.calls v' = x.schema.calls v := by
    unfold Schema.calls Schema.lookups Schema.sent
    rw [closed.place]
  refine ⟨events :: notes, ?_, ?_⟩
  · rw [closed.seen, Invocation.visitsOf_position]
    refine .cons ⟨fault, same ▸ follows, fun met => ?_⟩ each
    obtain ⟨e, raised, masked⟩ := masked met
    exact ⟨e, closed.raised e raised, masked⟩
  · rw [closed.store, noted, grown, List.append_assoc, List.flatten_cons]

theorem steps : Steps (Consulted x) where
  give _ _ _ _ := nothing rfl
  raise _ _ _ _ _ _ := nothing rfl
  next _ _ _ _ _ _ _ first _ rest := by
    obtain ⟨notes, each, noted⟩ := first
    obtain ⟨notes', each', noted'⟩ := rest
    refine ⟨notes ++ notes', ?_, ?_⟩
    · rw [Invocation.visitsOf_append]
      exact List.rel_append each each'
    · rw [noted', noted, List.flatten_append, List.append_assoc]
  stop _ _ _ _ _ _ first _ := first
  atElement p i nullable body r inside := by
    have taken : (Exec.takeMark (p ++ [.index i]) r).2.store = r.store :=
      (Exec.takeMark_eq (p ++ [.index i]) r).2.1
    obtain ⟨v, w, closes, unasked, found⟩ :=
      Watched.element_close (p ++ [.index i]) nullable body r
    have none : Follows (x.schema.calls v) [] none := by
      rw [Schema.calls_unasked unasked]
      exact .done
    have same : (Exec.takeMark (p ++ [.index i]) r).2.store.events = r.store.events ++ [] := by
      rw [taken, List.append_nil]
    rw [closes]
    rcases found with rfl | ⟨run, seen⟩
    · exact close (p := p) none same (fun absurd => nomatch absurd) inside
    · refine close (p := p) none same (fun absurd => nomatch absurd) ?_
      exact ⟨[], by rw [seen]; exact .nil, by rw [run]; exact (List.append_nil _).symm⟩

theorem invocation {b : Backend σ} (noted : x.backend = b.noted) {type : TypeDef} {parent : Outcome}
    {p : Path} {key : String} {loc : Location} {object : Watched.ObjectData (Diary σ)} {f : FieldDef}
    {arguments : Arguments} {r : Run (Diary σ)}
    (objects : Objects (Consulted x) (fun _ _ _ => True) object) :
    Consulted x _ p r
      (x.watchInvocation type parent (p ++ [.field key]) loc object f arguments r) := by
  obtain ⟨events, fault, follows, grown, failed⟩ := x.declaredField_makes noted type.name f.name
    (p ++ [.field key]) loc arguments parent r
  have fails (met : fault.isSome = true) : ∃ e : ResponseError, e.Masked ∧
      (x.declaredField type.name f.name (p ++ [.field key]) loc arguments parent r).1 = .error e := by
    obtain ⟨e, same⟩ := Option.isSome_iff_exists.mp met
    exact ⟨_, ⟨rfl, rfl⟩, (failed e same).1⟩
  unfold Execution.watchInvocation
  split
  · rename_i o r' ran
    rw [ran] at grown fails
    refine close (p := p) follows grown (fun met => ?_) ?_
    · obtain ⟨_, _, absurd⟩ := fails met
      cases absurd
    · exact steps.ofOutcome (c := x.schema.catalog) (fun _ _ _ _ _ _ _ _ => trivial) objects loc
        f.type (p ++ [.field key]) o r' fun found _ => fits_of_known (fun _ _ _ _ => trivial) _ found
  · rename_i e r' ran
    rw [ran] at grown fails
    refine close (p := p) follows grown (fun met => ?_) (nothing rfl)
    obtain ⟨e', masked, same⟩ := fails met
    exact ⟨e', by rw [Except.error.inj same], masked⟩

theorem description (p : Path) (head : FieldHead) (f : FieldDef) (children : List Node)
    (r : Run (Diary σ)) : Consulted x _ p r (x.watchDescription p head f children r) := by
  obtain ⟨run, stopped, left, seen⟩ := x.watchDescription_record p head f children r
  refine ⟨[], ?_, ?_⟩
  · rw [seen]
    exact .nil
  · rw [run, (Asides.enterDescription x p head f children r).store]
    exact (List.append_nil _).symm

theorem law {b : Backend σ} (noted : x.backend = b.noted) :
    Law x (Consulted x) fun _ _ _ => True where
  toSteps := steps
  lasting _ _ _ _ _ _ _ _ := trivial
  invocation _ _ _ _ _ _ _ _ _ _ _ objects _ := invocation noted objects
  description _ _ p head f children r _ _ := description p head f children r

end Consulted

-- What has been noted of a request are the calls of all that was invoked.
theorem Schema.watch?_consults {s : Schema} {b : Backend σ} {request : Request} {store : σ}
    {w : Watch (Diary σ) (List (String × Datum))}
    (watched : s.watch? b.noted request ⟨store, []⟩ = some w) :
    ∃ notes, List.Forall₂ (Consults s) (Invocation.visitsOf w.seen) notes ∧
      w.run.store.events = notes.flatten := by
  obtain ⟨m, root, _, _, rfl⟩ := Schema.watch?_some watched
  let x : Execution (Diary σ) := ⟨s, b.noted, m.operation.variableDefs, request.values⟩
  exact (Consulted.law (x := x) rfl).ofSelections m.nodes [] { store := ⟨store, []⟩ } trivial

end RowGraph
