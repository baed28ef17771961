import RowGraph.Proofs.Hooks.Operations
/-!
Hooks guard their fields and nothing else. Main statement: in every schema a field calls the hooks
that were attached to it, in order, before anything else, and is over with the message of the first
that refuses; hooks that never refuse change nothing; and a query shows the same without some of the
hooks, but for what their refusals have nulled.
-/

namespace RowGraph

variable {σ : Type}

namespace Attachment

variable {hooks kept : List Attachment} {type field : String} {arguments : Arguments}

theorem hooksOf_sublist (sublist : kept.Sublist hooks) (type field : String) :
    (hooksOf kept type field).Sublist (hooksOf hooks type field) :=
  (sublist.filter _).map _

-- What fewer hooks refuse, more hooks refuse as well.
theorem refusalAmong_sublist (sublist : kept.Sublist hooks)
    (passes : Hook.refusalAmong arguments (hooksOf hooks type field) = none) :
    Hook.refusalAmong arguments (hooksOf kept type field) = none := by
  unfold Hook.refusalAmong at passes ⊢
  rw [List.findSome?_eq_none_iff] at passes ⊢
  exact fun h member => passes h ((hooksOf_sublist sublist type field).subset member)

-- Hooks that never refuse have no say in what is refused.
theorem refusalAmong_filter {keep : Attachment → Bool}
    (idle : ∀ a ∈ hooks, keep a = false → ∀ arguments, a.hook.refusal? arguments = none) :
    Hook.refusalAmong arguments (hooksOf (hooks.filter keep) type field) =
      Hook.refusalAmong arguments (hooksOf hooks type field) := by
  unfold Hook.refusalAmong
  induction hooks with
  | nil => rfl
  | cons a rest ih =>
    have later := ih fun c member => idle c (List.mem_cons_of_mem _ member)
    rw [hooksOf_cons a rest, List.findSome?_append, ← later]
    cases kept : keep a with
    | true => rw [List.filter_cons_of_pos kept, hooksOf_cons, List.findSome?_append]
    | false =>
      have passes := idle a List.mem_cons_self kept arguments
      rw [List.filter_cons_of_neg (by simp [kept])]
      split <;> simp [passes]

end Attachment

namespace Session

variable {settings : Settings} {source : String} {hooks : List Attachment} {s : Schema}

theorem hooksOn_attached (built : build settings source hooks = .ok s) :
    s.hooksOn = Attachment.hooksOf hooks :=
  funext fun type => funext fun field => hooks_attached built type field

-- A schema can do without some of its hooks.
theorem build_kept {kept : List Attachment} (built : build settings source hooks = .ok s)
    (sublist : kept.Sublist hooks) : ∃ m, build settings source kept = .ok (s.rehook m) :=
  build_rehooked built fun a member => ⟨a, sublist.subset member, rfl, rfl⟩

end Session

-- What a request does whose fields have these hooks.
structure Answer.Guarded (hooks : String → String → List Hook)
    (w : Watch σ (List (String × Datum))) (answer : Answer σ) : Prop where
  response : answer.response = some w.response
  propagated : Propagated w w.response
  store : answer.store = w.run.store
  calls : answer.calls = (Invocation.visitsOf w.seen).flatMap (Visit.hookCalls hooks)
  heeds : ∀ v around inside, Line w.seen v around inside → v.Heeds hooks inside

theorem Schema.Built.execute_guarded {s : Schema} (built : s.Built) {b : Backend σ}
    {request : Request} {store : σ} {w : Watch σ (List (String × Datum))}
    (watched : s.watch? b request store = some w) :
    (s.execute b request store).Guarded s.hooksOn w := by
  obtain ⟨m, root, prepared, rooted, rfl⟩ := Schema.watch?_some watched
  obtain ⟨name, _, found⟩ := Option.bind_eq_some_iff.mp rooted
  let x : Execution σ := ⟨s, b, m.operation.variableDefs, request.values⟩
  have guards : Guards x _ [] { store } (x.watch root m.nodes store) :=
    (Guards.law x).ofSelections m.nodes [] { store } trivial
  rw [Schema.execute_run prepared rooted]
  exact ⟨rfl, x.run_propagated built.grounded (Catalog.type?_name found) m.nodes store, rfl,
    guards.calls, fun _ _ _ line => line.heeds guards.heeds⟩

section

variable {settings : Settings} {source : String} {hooks : List Attachment} {s : Schema}

theorem Schema.query_spares {kept : List Attachment} {hooks' : HookMap}
    (built : Session.build settings source hooks = .ok s)
    (built' : Session.build settings source kept = .ok (s.rehook hooks'))
    (sublist : kept.Sublist hooks) {b : Backend σ} (still : b.Still) {request : Request}
    {m : Request.Measured} {root : TypeDef} {store : σ} (prepared : request.prepare s = .ok m)
    (query : m.operation.kind = .query)
    (rooted : (s.catalog.root? m.operation.kind).bind s.catalog.type? = some root)
    (undisturbed : (⟨s, b, m.operation.variableDefs, request.values⟩ : Execution σ).Undisturbed root
      (Node.shown root.name m.nodes) { store })
    (undisturbed' : (⟨s.rehook hooks', b, m.operation.variableDefs, request.values⟩ :
      Execution σ).Undisturbed root (Node.shown root.name m.nodes) { store }) :
    ∃ w response', s.watch? b request store = some w ∧
      ((s.rehook hooks').execute b request store).response = some response' ∧
      (((∃ e, Lost (s.Bars hooks') w.seen e) ∧ w.response.data = .null) ∨
        Response.Spares (Nulled (s.Bars hooks') w.seen) w.response response') := by
  let x : Execution σ := ⟨s, b, m.operation.variableDefs, request.values⟩
  have stricter : s.Stricter hooks' := by
    intro type field arguments passes
    rw [Session.hooksOn_attached built] at passes
    rw [Session.hooksOn_attached built']
    exact Attachment.refusalAmong_sublist sublist passes
  have unwriting : Unwriting s root :=
    Schema.Built.query_root ⟨settings, source, hooks, built⟩ (query ▸ rooted)
  have calm : x.Calm := ⟨⟨settings, source, hooks, built⟩, still⟩
  have calm' : (x.rehook hooks').Calm := ⟨⟨settings, source, kept, built'⟩, still⟩
  have spares := Execution.run_spares (x := x) calm calm' stricter unwriting undisturbed undisturbed'
  refine ⟨_, _, Schema.watch?_run prepared rooted, ?_, spares⟩
  have prepared' : request.prepare (s.rehook hooks') = .ok m := prepared
  have rooted' : ((s.rehook hooks').catalog.root? m.operation.kind).bind
      (s.rehook hooks').catalog.type? = some root := rooted
  rw [Schema.execute_run prepared' rooted', Execution.run_watch]
  rfl

-- What hooks come to at one field, in one request, in a session next to the same without those that
-- never refuse, and in a query next to the same without some of them.
theorem hooks_guard (built : Session.build settings source hooks = .ok s) :
    (∀ (σ : Type) (x : Execution σ), x.schema = s → ∀ type field here loc arguments parent r,
      x.declaredField type field here loc arguments parent r =
        x.guarded (Attachment.hooksOf hooks type field) type field here loc arguments parent r) ∧
    (∀ (σ : Type) (b : Backend σ) request store w, s.watch? b request store = some w →
      (s.execute b request store).Guarded (Attachment.hooksOf hooks) w) ∧
    (∀ keep : Attachment → Bool,
      (∀ a ∈ hooks, keep a = false → ∀ arguments, a.hook.refusal? arguments = none) →
      ∃ s', Session.build settings source (hooks.filter keep) = .ok s' ∧
        ∀ (σ : Type) (b : Backend σ) requests store,
          (s'.serve b requests store).1.map Prod.fst = (s.serve b requests store).1.map Prod.fst ∧
          (s'.serve b requests store).2 = (s.serve b requests store).2) ∧
    ∀ kept, kept.Sublist hooks → ∃ s', Session.build settings source kept = .ok s' ∧
      ∀ (σ : Type) (b : Backend σ), b.Still → ∀ request m root store,
        request.prepare s = .ok m → m.operation.kind = .query →
        (s.catalog.root? m.operation.kind).bind s.catalog.type? = some root →
        (⟨s, b, m.operation.variableDefs, request.values⟩ : Execution σ).Undisturbed root
          (Node.shown root.name m.nodes) { store } →
        (⟨s', b, m.operation.variableDefs, request.values⟩ : Execution σ).Undisturbed root
          (Node.shown root.name m.nodes) { store } →
        ∃ w response', s.watch? b request store = some w ∧
          (s'.execute b request store).response = some response' ∧
          (((∃ e, Lost (s.Bars s'.hooks) w.seen e) ∧ w.response.data = .null) ∨
            Response.Spares (Nulled (s.Bars s'.hooks) w.seen) w.response response') := by
  have own := Session.hooksOn_attached built
  refine ⟨?_, ?_, ?_, ?_⟩
  · rintro σ x rfl type field here loc arguments parent r
    rw [x.declaredField_guarded, Session.hooks_attached built]
  · intro σ b request store w watched
    rw [← own]
    exact Schema.Built.execute_guarded ⟨settings, source, hooks, built⟩ watched
  · intro keep idle
    obtain ⟨m, built'⟩ := Session.build_kept built (List.filter_sublist (p := keep))
    refine ⟨s.rehook m, built', fun σ b requests store => ?_⟩
    refine Schema.serve_unhindered (fun type field arguments => ?_) b requests store
    rw [own, Session.hooksOn_attached built', Attachment.refusalAmong_filter idle]
  · intro kept sublist
    obtain ⟨m, built'⟩ := Session.build_kept built sublist
    exact ⟨s.rehook m, built', fun σ b still request _ root store prepared query rooted undisturbed
      undisturbed' => Schema.query_spares built built' sublist still prepared query rooted
        undisturbed undisturbed'⟩

end

-- Titles are refused, and other hooks look on.
def watcher : Attachment := ⟨"Book", "id", .observe "id"⟩

def warden : Attachment := ⟨"Book", "title", .refuse "warden" "sealed"⟩

def sealedTitle : List Attachment :=
  [⟨"Book", "title", .observe "before"⟩, watcher, warden, ⟨"Book", "title", .observe "after"⟩]

def halvesRequest : Request :=
  { source := Overview.ask "query" [Overview.ask "k: books(ids: [1])" ["id", "title"],
      Overview.ask "l: books(ids: [2])" ["id"]] }

theorem warden_hooks_guard : ∃ (s s' : Schema) (m : Request.Measured) (root : TypeDef)
    (w : Watch Memory (List (String × Datum))) (response response' : Response),
    Session.build {} strictShelf sealedTitle = .ok s ∧
    Session.build {} strictShelf [watcher] = .ok s' ∧ halvesRequest.prepare s = .ok m ∧
    m.operation.kind = .query ∧
    (s.catalog.root? m.operation.kind).bind s.catalog.type? = some root ∧
    (⟨s, Memory.backend, m.operation.variableDefs, halvesRequest.values⟩ :
      Execution Memory).Undisturbed root (Node.shown root.name m.nodes) { store := strictStore } ∧
    (⟨s', Memory.backend, m.operation.variableDefs, halvesRequest.values⟩ :
      Execution Memory).Undisturbed root (Node.shown root.name m.nodes) { store := strictStore } ∧
    s.watch? Memory.backend halvesRequest strictStore = some w ∧
    (s.execute Memory.backend halvesRequest strictStore).Guarded (Attachment.hooksOf sealedTitle) w ∧
    (s.execute Memory.backend halvesRequest strictStore).calls.map (·.label) =
      ["id", "before", "warden", "id"] ∧
    (s.execute Memory.backend halvesRequest strictStore).response = some response ∧
    (s'.execute Memory.backend halvesRequest strictStore).response = some response' ∧
    Response.Spares (Nulled (s.Bars s'.hooks) w.seen) response response' ∧
    (response.data.at? [.field "k", .index 0]).any Datum.isNull = true ∧
    (response'.data.at? [.field "k", .index 0, .field "title"]).isSome = true ∧
    ∃ s'', Session.build {} strictShelf [warden] = .ok s'' ∧ ∀ requests store,
      (s''.serve Memory.backend requests store).1.map Prod.fst =
        (s.serve Memory.backend requests store).1.map Prod.fst := by
  have ready : ((Session.build {} strictShelf sealedTitle).toOption.bind fun s =>
      (Session.build {} strictShelf [watcher]).toOption.bind fun s' =>
      (halvesRequest.prepare s).toOption.bind fun m =>
      ((s.catalog.root? m.operation.kind).bind s.catalog.type?).bind fun root =>
      (s.execute Memory.backend halvesRequest strictStore).response.bind fun response =>
      (s'.execute Memory.backend halvesRequest strictStore).response.map fun response' =>
      let x : Execution Memory := ⟨s, Memory.backend, m.operation.variableDefs, halvesRequest.values⟩
      let x' : Execution Memory :=
        ⟨s', Memory.backend, m.operation.variableDefs, halvesRequest.values⟩
      decide (m.operation.kind = .query ∧
        (Node.shown root.name m.nodes).Pairwise (fun l l' => l.key ∉ x.watched root l') ∧
        (Node.shown root.name m.nodes).Pairwise (fun l l' => l.key ∉ x'.watched root l') ∧
        (s.execute Memory.backend halvesRequest strictStore).calls.map (·.label) =
          ["id", "before", "warden", "id"] ∧ response.data.isNull = false ∧
        (response.data.at? [.field "k", .index 0]).any Datum.isNull = true ∧
        (response'.data.at? [.field "k", .index 0, .field "title"]).isSome = true)) =
      some true := by
    decide +kernel
  simp only [Option.bind_eq_some_iff, Option.map_eq_some_iff, decide_eq_true_eq] at ready
  obtain ⟨s, made, s', made', m, prepared, root, ⟨name, named, found⟩, response, answered,
    response', answered', query, apart, apart', called, shown, nulled, kept⟩ := ready
  have rooted := Option.bind_eq_some_iff.mpr ⟨name, named, found⟩
  have built := ok_of_toOption made
  have built' := ok_of_toOption made'
  have prepared := ok_of_toOption prepared
  obtain ⟨_, guarded, idle, spares⟩ := hooks_guard built
  have fewer : [watcher].Sublist sealedTitle := by simp [sealedTitle]
  obtain ⟨_, same, spares⟩ := spares [watcher] fewer
  obtain rfl := Except.ok.inj (built'.symm.trans same)
  have catalog : s'.catalog = s.catalog := by
    obtain ⟨hooks, again⟩ := Session.build_kept built fewer
    rw [Except.ok.inj (built'.symm.trans again)]
    rfl
  have undisturbed := Direct.undisturbed_of_apart (r := { store := strictStore })
    ⟨{}, strictShelf, _, built⟩ (Catalog.type?_name found) .nothing (by simp) apart
  have undisturbed' := Direct.undisturbed_of_apart (r := { store := strictStore })
    ⟨{}, strictShelf, _, built'⟩ (catalog ▸ Catalog.type?_name found) .nothing (by simp) apart'
  obtain ⟨w, _, watched, answered'', spared⟩ := spares Memory Memory.backend Memory.still
    halvesRequest m root strictStore prepared query rooted undisturbed undisturbed'
  obtain rfl := Option.some.inj (answered'.symm.trans answered'')
  have answer := guarded Memory Memory.backend halvesRequest strictStore w watched
  obtain ⟨quiet, without, alike⟩ := idle (fun a => a.hook.label = "warden") (by
    simp [sealedTitle, watcher, warden, Hook.observe, Hook.refuse])
  obtain rfl : response = w.response := Option.some.inj (answered.symm.trans answer.response)
  have spared := spared.resolve_left fun lost => by
    rw [lost.2] at shown
    cases shown
  exact ⟨s, s', m, root, w, w.response, response', built, built', prepared, query, rooted,
    undisturbed, undisturbed', watched, answer, called, answered, answered', spared, nulled, kept,
    quiet, without, fun requests store => (alike Memory Memory.backend requests store).1⟩

end RowGraph
