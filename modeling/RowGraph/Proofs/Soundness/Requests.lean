import RowGraph.Proofs.Placement.Elements
import RowGraph.Proofs.Propagation.Request
import RowGraph.Proofs.Soundness.Outcomes
/-!
Faults of the program itself cannot be reached. A computation at a position is calm if it changes no
mark but those of some positions and lets no such fault out; what a resolver hands on for a field is
shown calmly, and so the whole execution is calm. Main statements: no document that was read builds
a schema with such a fault, and no request is ever answered with one.
-/

namespace RowGraph

open Watched

variable {σ α β : Type}

-- The object that a field was asked of is what its resolver reads.
def Schema.Ready (s : Schema) (a : Asked) : Prop :=
  ∀ resolver, FieldMap.get? s.resolvers a.type a.field = some resolver → resolver.Takes a.parent

-- What a computation that only concerns some positions does and leaves behind.
structure Calm (s : Schema) (S : Path → Prop) (r : Run σ) (w : Watch σ α) : Prop where
  marks : ∀ q, ¬ S q → markAt w.run.marks q = markAt r.marks q
  ready : ∀ v ∈ Invocation.visitsOf w.seen, ∀ a, v.place.asked = some a → s.Ready a
  mild : r.Mild → w.run.Mild
  faults : r.Mild → ∀ fault, w.result = .error fault → ¬ fault.error.Internal

namespace Calm

variable {s : Schema} {S : Path → Prop} {p : Path} {r : Run σ}

theorem widen {S' : Path → Prop} {w : Watch σ α} (calm : Calm s S r w) (wider : ∀ q, S q → S' q) :
    Calm s S' r w :=
  { calm with marks := fun q outside => calm.marks q (mt (wider q) outside) }

-- Nothing is invoked.
theorem idle {w : Watch σ α} (seen : Invocation.visitsOf w.seen = [])
    (marks : ∀ q, ¬ S q → markAt w.run.marks q = markAt r.marks q) (mild : r.Mild → w.run.Mild)
    (faults : r.Mild → ∀ fault, w.result = .error fault → ¬ fault.error.Internal) :
    Calm s S r w := by
  refine ⟨marks, ?_, mild, faults⟩
  rw [seen]
  exact fun _ absurd => nomatch absurd

theorem give (S : Path → Prop) (r : Run σ) (a : α) : Calm s S r ⟨.ok a, r, []⟩ :=
  idle rfl (fun _ _ => rfl) id fun _ _ absurd => nomatch absurd

theorem raise (S : Path → Prop) (r : Run σ) {e : ResponseError} (external : ¬ e.Internal) :
    Calm s S r (⟨.error (.raised e), r, []⟩ : Watch σ α) := by
  refine idle rfl (fun _ _ => rfl) id fun _ fault same => ?_
  rwa [← Except.error.inj same]

theorem next {w : Watch σ α} {w' : Watch σ β} (first : Calm s S r w) (rest : Calm s S w.run w') :
    Calm s S r ⟨w'.result, w'.run, w.seen ++ w'.seen⟩ where
  marks q outside := (rest.marks q outside).trans (first.marks q outside)
  ready v member := by
    rw [Invocation.visitsOf_append] at member
    exact (List.mem_append.mp member).elim (first.ready v) (rest.ready v)
  mild start := rest.mild (first.mild start)
  faults start := rest.faults (first.mild start)

-- Closing a position only notes the error or hands it on, with a path.
theorem close {v : Visit} {w : Watch σ (Option Datum)}
    (own : ∀ a, v.place.asked = some a → s.Ready a) (calm : Calm s S r w) :
    Calm s S r (Watched.close v w) := by
  obtain ⟨_, closed⟩ := close_closed v w
  refine ⟨fun q outside => by rw [closed.marks, calm.marks q outside], ?_, fun start => ?_, ?_⟩
  · rw [closed.seen, Invocation.visitsOf_position]
    intro u member
    rcases List.mem_cons.mp member with rfl | deeper
    · rw [closed.place]
      exact own
    · exact calm.ready u deeper
  · have mild := calm.mild start
    unfold Watched.close
    split
    · exact mild
    · rename_i fault failed
      have external := mt (ResponseError.located_internal v.place.path fault.error).mp
        (calm.faults start fault failed)
      dsimp only
      split
      · exact mild.absorb external
      · exact mild
  · intro start fault failed
    unfold Watched.close at failed
    split at failed
    · cases failed
    · rename_i own inner
      dsimp only at failed
      split at failed
      · cases failed
      · obtain rfl := Except.error.inj failed
        exact mt (ResponseError.located_internal v.place.path own.error).mp
          (calm.faults start own inner)

-- An element only concerns its own position and those below it. Its body is looked at only if no
-- mark waits there.
theorem element {nullable : Bool} {body : Watched σ (Option Datum)}
    (inside : markAt r.marks p = none →
      Calm s (Below p) (Exec.takeMark p r).2 (body (Exec.takeMark p r).2)) :
    Calm s (p <+: ·) r (Watched.element p nullable body r) := by
  obtain ⟨found, _, _, _, marks⟩ := Exec.takeMark_eq p r
  have taken (q : Path) (outside : ¬ p <+: q) :
      markAt (Exec.takeMark p r).2.marks q = markAt r.marks q := by
    rw [marks, if_neg]
    rintro rfl
    exact outside List.prefix_rfl
  have mild (start : r.Mild) : (Exec.takeMark p r).2.Mild := start.takeMark p
  have external (e : ResponseError) (mark : markAt r.marks p = some (some e)) (start : r.Mild) :
      ¬ e.Internal := start.marks p e mark
  unfold Watched.element
  generalize Exec.takeMark p r = w at found inside taken mild ⊢
  obtain ⟨mark, r'⟩ := w
  match mark, found with
  | none, found =>
    have calm := (inside found.symm).widen fun q below => (below_iff.mp below).1
    refine close (fun _ absurd => nomatch absurd) ?_
    exact { calm with
      marks := fun q outside => (calm.marks q outside).trans (taken q outside)
      mild := calm.mild ∘ mild
      faults := calm.faults ∘ mild }
  | some none, _ =>
    have missing : ¬ Exec.missingElement.Internal := ResponseError.Bare.external ⟨rfl, rfl⟩
    refine close (fun _ absurd => nomatch absurd) (idle rfl taken mild fun _ fault same => ?_)
    cases nullable with
    | true => cases same
    | false => rwa [← Except.error.inj same]
  | some (some e), found =>
    refine close (fun _ absurd => nomatch absurd) (idle rfl taken mild fun start fault same => ?_)
    rw [← Except.error.inj same]
    exact external e found.symm start

theorem steps (s : Schema) : Steps (σ := σ) fun _ p r w => Calm s (Below p) r w where
  give _ p r a := give (Below p) r a
  raise _ p r e _ plain := raise (Below p) r (by simp [ResponseError.Internal, plain])
  next _ _ _ _ _ _ _ first _ rest := first.next rest
  stop _ _ _ _ _ fault first failed := by
    refine { first with faults := fun start other same => ?_ }
    obtain rfl := Except.error.inj same
    exact first.faults start fault failed
  atElement p i nullable body r inside := by
    refine (element fun _ => inside).widen fun q under => ?_
    obtain ⟨rest, rfl⟩ := under
    exact ⟨.index i, rest, by simp⟩

-- Elements of a list, each calm unless a mark waits for it. What one of them does is not seen by the
-- ones after it.
theorem elements {P : List (Path × Option ResponseError) → Path → Outcome → Prop} {nullable : Bool}
    {body : Path → Outcome → Watched σ (Option Datum)}
    (kept : ∀ marks marks' q o, P marks q o →
      (∀ u, Below q u → markAt marks' u = markAt marks u) → P marks' q o)
    (inside : ∀ r q o, P r.marks q o → Calm s (Below q) r (body q o r)) (items : List Outcome)
    (index : Nat) (r : Run σ)
    (each : ∀ i o, items[i]? = some o → P r.marks (p ++ [.index (index + i)]) o ∨
      markAt r.marks (p ++ [.index (index + i)]) ≠ none) :
    Calm s (Below p) r (Watched.elements nullable p body index items r) := by
  induction items generalizing index r with
  | nil => exact give (Below p) r []
  | cons o rest ih =>
    let here := p ++ [Segment.index index]
    have first : Calm s (here <+: ·) r (Watched.element here nullable (body here o) r) := by
      refine element fun unmarked => inside _ here o ?_
      have holds := (each 0 o rfl).resolve_right fun marked => marked unmarked
      refine kept r.marks _ here o holds fun u below => ?_
      rw [(Exec.takeMark_eq here r).2.2.2.2, if_neg below.ne]
    have below (q : Path) (under : here <+: q) : Below p q := by
      obtain ⟨deeper, rfl⟩ := under
      exact ⟨.index index, deeper, by simp [here]⟩
    refine (steps s).bind (first.widen below) fun d _ => ?_
    refine (steps s).bind (ih (index + 1) _ fun i o' found => ?_) fun ds _ => give (Below p) _ _
    have apart (q : Path) (under : p ++ [.index (index + 1 + i)] <+: q) :
        markAt (Watched.element here nullable (body here o) r).run.marks q = markAt r.marks q := by
      refine first.marks q fun same => ?_
      have := index_unique same under
      omega
    have later := each (i + 1) o' found
    rw [show index + (i + 1) = index + 1 + i by omega] at later
    rw [apart _ List.prefix_rfl]
    refine later.imp_left fun holds => kept r.marks _ _ o' holds fun u deeper => ?_
    exact apart u (below_iff.mp deeper).1

-- A value of the kind that its type asks for is shown calmly.
theorem suits {object : ObjectData σ}
    (objects : Objects (fun _ q r w => Calm s (Below q) r w) (fun _ => s.Holds) object)
    (loc : Location) {type : TypeExpr} {o : Outcome} (suits : s.Suits r.marks type p o) :
    Calm s (Below p) r (Watched.outcome s.catalog object loc type p (some o) r) := by
  induction type generalizing p o r with
  | named name nonNull =>
    obtain ⟨t, known, suited⟩ := suits
    simp only [Watched.outcome, known]
    refine (steps s).map some ?_
    unfold Watched.value
    cases body : t.body with
    | object fields =>
      rw [body] at suited
      obtain rfl : t.name = name := Catalog.name_of_type? known
      exact objects r t o p ⟨known, fun _ => suited⟩
    | _ => exact (steps s).own (Raises.leaf t loc o) r
  | list item nonNull ih =>
    obtain ⟨items, rfl, each⟩ := suits
    simp only [Watched.outcome, itemsOf?]
    refine (steps s).map _ (elements (P := fun marks q o => s.Suits marks item q o) ?_ ?_ items 0 r ?_)
    · exact fun marks marks' q o suits kept => suits.keep kept
    · exact fun r q o suits => ih suits
    · intro i o found
      rw [Nat.zero_add]
      exact (each i o found).imp_right And.right

-- Whatever a resolver has handed on is shown calmly.
theorem sound {object : ObjectData σ}
    (objects : Objects (fun _ q r w => Calm s (Below q) r w) (fun _ => s.Holds) object)
    (loc : Location) {type : TypeExpr} {found : Option Outcome}
    (sound : s.Sound type p r.marks found) :
    Calm s (Below p) r (Watched.outcome s.catalog object loc type p found r) := by
  have outcome := (steps s).ofOutcome (c := s.catalog) (fun _ _ _ _ _ _ _ holds => holds) objects loc
    type p found r
  cases found with
  | none => exact outcome fun _ absurd => nomatch absurd
  | some o =>
    rcases sound o rfl with suited | fits
    · exact suits objects loc suited
    · exact outcome fun _ same => Option.some.inj same ▸ fits

theorem resolved {b : Backend σ} {here : Path} {resolver : Resolver} {ops : List Operation}
    {r' : Run σ} {result : Except GraphError (Option Outcome)}
    (resolved : Resolved b here resolver ops r result r') (q : Path) (outside : ¬ Below here q) :
    markAt r'.marks q = markAt r.marks q := by
  refine (resolved.marks q).resolve_right ?_
  rintro ⟨j, _, rfl, _⟩
  exact outside (.snoc here _)

-- A field whose parent is in order.
theorem invocation {x : Execution σ} (built : x.schema.Built) {type : TypeDef} {parent : Outcome}
    (holds : x.schema.Holds type parent) {here : Path} {loc : Location} {object : ObjectData σ}
    {f : FieldDef} {arguments : Arguments} (declared : type.field? f.name = some f)
    (objects : Objects (fun _ q r w => Calm x.schema (Below q) r w) (fun _ => x.schema.Holds)
      object) :
    Calm x.schema (Below here) r
      (x.watchInvocation type parent here loc object f arguments r) := by
  have kinds {resolver : Resolver}
      (resolves : FieldMap.get? x.schema.resolvers type.name f.name = some resolver) :
      x.schema.Kinds type.name f.type resolver :=
    built.grounded.kinds holds.known declared resolves
  have ready : x.schema.Ready ⟨type.name, f.name, parent, arguments⟩ :=
    fun _ resolves => (kinds resolves).takes holds
  -- The value that was handed on is shown from where the resolver has stopped.
  have shown {o : Option Outcome} {r' : Run σ}
      (marks : ∀ q, ¬ Below here q → markAt r'.marks q = markAt r.marks q)
      (mild : r.Mild → r'.Mild) (sound : x.schema.Sound f.type here r'.marks o) :
      Calm x.schema (Below here) r (Watched.outcome x.schema.catalog object loc f.type here o r') := by
    have before : Calm x.schema (Below here) r (⟨.ok (), r', []⟩ : Watch σ Unit) :=
      idle rfl marks mild fun _ _ absurd => nomatch absurd
    exact before.next (Calm.sound objects loc sound)
  have ran := x.declaredField_declared type.name f.name here loc arguments parent r
  have own (a : Asked) (same : some ⟨type.name, f.name, parent, arguments⟩ = some a) :
      x.schema.Ready a := Option.some.inj same ▸ ready
  unfold Execution.watchInvocation
  generalize x.declaredField type.name f.name here loc arguments parent r = answer at ran
  cases ran with
  | refused _ steady bare =>
    refine close own (idle rfl (fun q _ => by rw [steady.marks]) (fun start => start.steady steady) ?_)
    intro _ fault same
    rw [← Except.error.inj same]
    exact bare.external
  | unserved _ steady =>
    have nothing (marks : List (Path × Option ResponseError)) :
        x.schema.Sound f.type here marks none := fun _ absurd => nomatch absurd
    exact close own
      (shown (fun q _ => by rw [steady.marks]) (fun start => start.steady steady) (nothing _))
  | @resolved r' r'' resolver result _ resolves steady ran resolved =>
    obtain ⟨polite, mild, gives⟩ :=
      x.resolver_supplies (kinds resolves) (ready _ resolves) here loc arguments
    have marks (q : Path) (outside : ¬ Below here q) : markAt r''.marks q = markAt r.marks q := by
      rw [Calm.resolved resolved q outside, steady.marks]
    have quiet (start : r.Mild) : r''.Mild := by
      have after := mild r' (start.steady steady)
      rwa [ran] at after
    cases result with
    | ok o =>
      have sound := gives r' o (by rw [ran])
      rw [ran] at sound
      exact close own (shown marks quiet sound)
    | error e =>
      refine close own (idle rfl marks quiet fun _ fault same => ?_)
      rw [← Except.error.inj same]
      exact mt (ResponseError.raisedAt_internal e loc).mp (polite r' e (by rw [ran]))

theorem description (x : Execution σ) (p : Path) (head : FieldHead) (f : FieldDef)
    (children : List Node) (r : Run σ) :
    Calm x.schema (Below p) r (x.watchDescription p head f children r) := by
  have aside := Asides.enterDescription x p head f children r
  have mildly := Mildly.enterDescription x p head f children r
  have marks (q : Path) (outside : ¬ Below p q) :
      markAt (x.enterDescription p head f children r).2.marks q = markAt r.marks q :=
    (aside.marks q).resolve_right fun gone => outside gone.1
  unfold Execution.watchDescription
  generalize x.enterDescription p head f children r = answer at marks mildly
  obtain ⟨_ | _, r'⟩ := answer
  · refine idle rfl marks (fun start => (mildly start).1) fun start fault same => ?_
    rw [← Except.error.inj same]
    exact (mildly start).2 _ rfl
  · exact idle rfl marks (fun start => (mildly start).1) fun _ _ absurd => nomatch absurd

theorem law {x : Execution σ} (built : x.schema.Built) :
    Law x (fun _ p r w => Calm x.schema (Below p) r w) fun _ => x.schema.Holds where
  toSteps := steps x.schema
  lasting _ _ _ _ _ _ _ holds := holds
  invocation _ _ _ _ _ _ _ _ _ holds declared objects _ := by
    refine (invocation built holds declared objects).widen ?_
    exact fun q below => (Below.snoc _ _).trans below
  description _ _ p head f children r _ _ := description x p head f children r

end Calm

namespace Schema

variable {s : Schema}

-- A root is asked for no row.
theorem Built.root_holds (built : s.Built) {kind : OperationKind} {root : TypeDef}
    (rooted : (s.catalog.root? kind).bind s.catalog.type? = some root) (o : Outcome) :
    s.Holds root o := by
  obtain ⟨name, found, known⟩ := Option.bind_eq_some_iff.mp rooted
  obtain rfl := Catalog.name_of_type? known
  have isRoot : s.document.isRoot root.name = true := by
    rw [built.grounded.catalog] at found
    cases kind with
    | query => simpa [Document.isRoot] using .inl (Option.some.inj found)
    | mutation => simpa [Document.isRoot] using .inr found
    | subscription => cases found
  refine ⟨known, ?_⟩
  rw [built.root_kindless isRoot]
  rintro (absurd | absurd) <;> cases absurd

-- The whole of an operation is calm.
theorem Built.watch_calm (built : s.Built) {b : Backend σ} {request : Request} {store : σ}
    {w : Watch σ (List (String × Datum))} (watched : s.watch? b request store = some w) :
    Calm s (Below []) { store } w := by
  obtain ⟨m, root, _, rooted, rfl⟩ := watch?_some watched
  let x : Execution σ := ⟨s, b, m.operation.variableDefs, request.values⟩
  have law := Calm.law (x := x) built
  exact law.ofSelections m.nodes [] { store } (built.root_holds rooted .root)

-- Neither what is seen of a run nor what it has noted on the way is a fault of the program.
theorem Built.response_external (built : s.Built) {b : Backend σ} {request : Request} {store : σ}
    {w : Watch σ (List (String × Datum))} (watched : s.watch? b request store = some w) :
    ∀ e ∈ w.response.errors, ¬ e.Internal := by
  have calm := built.watch_calm watched
  have start : ({ store } : Run σ).Mild := .start store
  have noted (e : ResponseError) (member : e ∈ w.run.caught ++ w.run.absorbed) : ¬ e.Internal := by
    rcases List.mem_append.mp member with stopped | stopped
    · exact (calm.mild start).caught e stopped
    · exact (calm.mild start).absorbed e stopped
  unfold Watch.response
  split
  · exact noted
  · rename_i fault failed
    intro e member
    rcases List.mem_cons.mp member with rfl | member
    · exact calm.faults start fault failed
    · exact noted e member

-- No request is answered with a fault of the program, be it turned down or run.
theorem Built.answer_external (built : s.Built) {b : Backend σ} {request : Request} {store : σ}
    {response : Response} (answered : (s.execute b request store).response = some response) :
    ∀ e ∈ response.errors, ¬ e.Internal := by
  cases prepared : request.prepare s with
  | error refusal =>
    unfold execute at answered
    rw [prepared] at answered
    cases refusal with
    | malformed => cases answered
    | errors errors =>
      obtain rfl := Option.some.inj answered
      exact fun e member => (Request.prepare_reports prepared e member).external
  | ok m =>
    cases rooted : (s.catalog.root? m.operation.kind).bind s.catalog.type? with
    | none =>
      unfold execute at answered
      rw [prepared] at answered
      simp only [rooted] at answered
      obtain rfl := Option.some.inj answered
      intro e member
      rw [List.mem_singleton.mp member]
      exact (Validation.report_bare _ _).external
    | some root =>
      rw [execute_run prepared rooted] at answered
      obtain rfl := Option.some.inj answered
      exact built.response_external (watch?_run prepared rooted)

-- A field that composes its value hands on one of the kind that its type asks for, whatever it was
-- asked of.
theorem Built.hands_suits (built : s.Built) {x : Execution σ} (same : x.schema = s)
    {type field : String} {t : TypeDef} {f : FieldDef} {resolver : Resolver}
    (known : s.catalog.type? type = some t) (declared : t.field? field = some f)
    (resolves : FieldMap.get? s.resolvers type field = some resolver)
    (composes : resolver.Composes) {here : Path} {loc : Location} {arguments : Arguments}
    {parent : Outcome} {r r' : Run σ} {o : Outcome}
    (ran : x.declaredField type field here loc arguments parent r = (.ok (some o), r')) :
    s.Suits r'.marks f.type here o := by
  subst same
  have outcome := x.declaredField_declared type field here loc arguments parent r
  rw [ran] at outcome
  generalize answer : (Except.ok (some o), r') = answered at outcome
  cases outcome with
  | refused => cases answer
  | unserved => cases answer
  | @resolved _ r'' resolver' result _ resolves' _ ran =>
    obtain rfl : resolver' = resolver := Option.some.inj (resolves'.symm.trans resolves)
    cases result with
    | error e => cases answer
    | ok found =>
      cases answer
      have kinds := built.grounded.kinds known declared resolves
      have suits := Execution.resolver_suits kinds composes (congrArg Prod.fst ran)
      rwa [ran] at suits

-- No field that follows references is of a scalar type.
theorem Built.shape_reference (built : s.Built) {type field : String} {resolver : Resolver}
    {shape : FieldShape} (resolves : FieldMap.get? s.resolvers type field = some resolver)
    (shaped : resolver.shape? = some shape) : shape.kind ≠ .scalar := by
  obtain ⟨t, fields, f, known, object, last, serves⟩ := built.grounded.serves resolves
  cases serves with
  | root _ reference => exact Option.some.inj shaped ▸ reference
  | reference _ _ reference => exact Option.some.inj shaped ▸ reference
  | column => cases shaped
  | shown => cases shaped
  | value => cases shaped
  | mutation => cases shaped

-- What holds of a schema for whatever stores hold, and for every request.
structure Faultless (s : Schema) : Prop where
  answers : ∀ (σ : Type) (b : Backend σ) (request : Request) (store : σ) (response : Response),
    (s.execute b request store).response = some response → ∀ e ∈ response.errors, ¬ e.Internal
  -- Every field is asked of an object that its resolver can read.
  ready : ∀ (σ : Type) (b : Backend σ) (request : Request) (store : σ)
    (w : Watch σ (List (String × Datum))), s.watch? b request store = some w →
    ∀ v ∈ Invocation.visitsOf w.seen, ∀ a, v.place.asked = some a → s.Ready a
  shaped : ∀ type field resolver shape, FieldMap.get? s.resolvers type field = some resolver →
    resolver.shape? = some shape → shape.kind ≠ .scalar
  -- A list for a list type, a row for an object type and a text for a scalar.
  hands : ∀ (σ : Type) (x : Execution σ), x.schema = s → ∀ type field t f resolver,
    s.catalog.type? type = some t → t.field? field = some f →
    FieldMap.get? s.resolvers type field = some resolver → resolver.Composes →
    ∀ here loc arguments parent r r' o,
      x.declaredField type field here loc arguments parent r = (.ok (some o), r') →
      s.Suits r'.marks f.type here o

theorem Built.faultless (built : s.Built) : s.Faultless where
  answers _ _ _ _ _ answered := built.answer_external answered
  ready _ _ _ _ _ watched := (built.watch_calm watched).ready
  shaped _ _ _ _ resolves shaped := built.shape_reference resolves shaped
  hands _ _ same _ _ _ _ _ known declared resolves composes _ _ _ _ _ _ _ ran :=
    built.hands_suits same known declared resolves composes ran

end Schema

-- For every document that was read and every choice of hooks.
theorem internal_unreachable {source : String} {b b' : Blueprint} {hooks : List Attachment}
    (accepted : Blueprint.read source = .ok b) (attached : Session.attachAll b hooks = .ok b')
    (settings : Settings) :
    (∀ e, b'.finish settings = .error e → ¬ e.Internal) ∧
      ∀ s, b'.finish settings = .ok s → s.Faultless := by
  constructor
  · intro e failed
    obtain ⟨p, rfl⟩ := Blueprint.finish_problem accepted attached failed
    exact p.error_external
  · intro s finished
    have built : s.Built := by
      refine ⟨settings, source, hooks, ?_⟩
      simp [Session.build, accepted, attached, finished, bind, Except.bind]
    exact built.faultless

-- Records of shelves with books on them. The books of the first shelf are nowhere.
def records : String :=
  Overview.ask "type Query" ["shelf(id: ID!): Record"] ++
  Overview.ask "type Record" ["versionstamp: ID!", "value: Shelf"] ++
  Overview.ask "type Shelf" ["books: [Book]", "next: Record"] ++
  Overview.ask "type Book" ["title: String"]

def recordsStore : Memory :=
  (Memory.empty.commit ⟨[], [.set ⟨"Shelf", ⟨"1"⟩⟩
    (Row.ofColumns [("books", .array [.string "1", .null])])]⟩).2

def recordsRequest : Request :=
  { source := Overview.ask "query" [Overview.ask "shelf(id: 1)"
      [Overview.ask "value" [Overview.ask "books" ["title"]]]] }

theorem records_internal_unreachable : ∃ (b b' : Blueprint) (s : Schema),
    Blueprint.read records = .ok b ∧ Session.attachAll b [] = .ok b' ∧ b'.finish {} = .ok s ∧
      s.Faultless ∧
      (s.execute Memory.backend recordsRequest recordsStore).response.map
        (fun r => r.errors.map fun e => (e.path, e.code)) =
        some [([.field "shelf", .field "value", .field "books", .index 0],
          some "DanglingReference")] := by
  have ready : (Session.build {} records []).toOption.bind (fun s =>
      (s.execute Memory.backend recordsRequest recordsStore).response.map
        fun r => r.errors.map fun e => (e.path, e.code)) =
      some [([.field "shelf", .field "value", .field "books", .index 0],
        some "DanglingReference")] := by
    decide +kernel
  obtain ⟨s, made, answered⟩ := Option.bind_eq_some_iff.mp ready
  obtain ⟨b, b', read, attached, finished⟩ := Session.build_ok (ok_of_toOption made)
  have unreachable := internal_unreachable read attached {}
  exact ⟨b, b', s, read, attached, finished, unreachable.2 s finished, answered⟩

end RowGraph
