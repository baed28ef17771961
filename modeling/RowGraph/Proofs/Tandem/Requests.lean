import RowGraph.Proofs.Execution.Alike
import RowGraph.Proofs.Tandem.Selections
/-!
Requests on two stores that answer alike. Two requests that are prepared alike have responses that are
alike, one after another; a request is prepared like itself. Main statement: this is so for every
sequence of requests.
-/

namespace RowGraph

variable {σ σ' : Type}

structure Response.Like (exact : Prop) (response response' : Response) : Prop where
  data : response'.data = response.data
  errors : List.Forall₂ (ResponseError.Like exact) response.errors response'.errors

-- What a client is told, but for the places in the texts that they have sent.
inductive Request.Refusal.Like (exact : Prop) : Refusal → Refusal → Prop where
  | malformed : Like exact .malformed .malformed
  | errors {es es' : List ResponseError} : List.Forall₂ (ResponseError.Like exact) es es' →
      Like exact (.errors es) (.errors es')

-- Operations that are executed alike: their selections are alike below the root.
structure Request.Measured.Alike (s : Schema) (exact : Prop) (r r' : Request) (m m' : Measured) :
    Prop where
  kind : m'.operation.kind = m.operation.kind
  place : exact → m'.operation.loc = m.operation.loc
  nodes : ∀ root, (s.catalog.root? m.operation.kind).bind s.catalog.type? = some root →
    ∀ (σ σ' : Type) (b : Backend σ) (b' : Backend σ'),
      Node.AllAlike exact ⟨s, b, m.operation.variableDefs, r.values⟩
        ⟨s, b', m'.operation.variableDefs, r'.values⟩ (some root) m.nodes m'.nodes

def Request.Alike (s : Schema) (exact : Prop) (r r' : Request) : Prop :=
  Agree (Refusal.Like exact) (Measured.Alike s exact r r') (r.prepare s) (r'.prepare s)

structure Answer.Like (exact : Prop) (a : Option Response × List HookCall)
    (a' : Option Response × List HookCall) : Prop where
  response : Option.Rel (Response.Like exact) a.1 a'.1
  calls : a'.2 = a.2

theorem ResponseError.Like.eq {e e' : ResponseError} (like : ResponseError.Like True e e') : e' = e := by
  obtain ⟨message, path, locations, code⟩ := e
  obtain ⟨message', path', locations', code'⟩ := e'
  obtain ⟨rfl, rfl, rfl, same⟩ := like
  rw [show locations' = locations from same trivial]

theorem Response.Like.eq {response response' : Response} (like : Response.Like True response response') :
    response' = response := by
  obtain ⟨data, errors⟩ := response
  obtain ⟨data', errors'⟩ := response'
  obtain ⟨same, each⟩ := like
  have equal : errors' = errors :=
    (List.forall₂_eq_eq_eq ▸ each.imp fun _ _ like => like.eq.symm : errors = errors').symm
  rw [show data' = data from same, equal]

theorem Answer.Like.eq {a a' : Option Response × List HookCall} (like : Answer.Like True a a') :
    a' = a := by
  obtain ⟨response, calls⟩ := a
  obtain ⟨response', calls'⟩ := a'
  obtain ⟨same, rfl⟩ := like
  cases same with
  | none => rfl
  | some like => rw [like.eq]

-- A request is prepared like itself.
section

variable {exact : Prop}

theorem FieldHead.Alike.refl (x : Execution σ) {x' : Execution σ'} (declared : x'.declared = x.declared)
    (given : x'.given = x.given) {varies : String → Datum → Datum → Prop}
    (refl : ∀ name d, varies name d d) (head : FieldHead) :
    FieldHead.Alike exact x x' varies head head := by
  refine ⟨rfl, rfl, fun _ => rfl, List.forall₂_same.mpr fun a _ => ⟨rfl, fun _ => rfl, ?_⟩⟩
  have same : x'.argumentValue a = x.argumentValue a := by
    unfold Execution.argumentValue Execution.variableValue
    rw [declared, given]
  rw [same]
  exact Agree.refl (.refl exact) (refl _) _

mutual

theorem Node.Alike.refl (x : Execution σ) {x' : Execution σ'} (declared : x'.declared = x.declared)
    (given : x'.given = x.given) (on : Option TypeDef) :
    ∀ n : Node, Node.Alike exact x x' on n n
  | .field head children =>
    .field (x.schema.admits_site on head.name) (.refl x declared given (fun _ _ => .inl rfl) head)
      (Node.AllAlike.refl x declared given _ children)
  | .group _ _ children => .group (Node.AllAlike.refl x declared given _ children)

theorem Node.AllAlike.refl (x : Execution σ) {x' : Execution σ'} (declared : x'.declared = x.declared)
    (given : x'.given = x.given) (on : Option TypeDef) :
    ∀ nodes : List Node, Node.AllAlike exact x x' on nodes nodes
  | [] => .nil
  | n :: rest =>
    .cons (Node.Alike.refl x declared given on n) (Node.AllAlike.refl x declared given on rest)

end

theorem Request.Alike.refl (s : Schema) (r : Request) : Request.Alike s exact r r := by
  refine Agree.refl (fun refusal => ?_) (fun m => ⟨rfl, fun _ => rfl, fun root _ => ?_⟩) _
  · cases refusal with
    | malformed => exact .malformed
    | errors es => exact .errors (List.forall₂_same.mpr fun e _ => .refl exact e)
  · intro σ σ' b b'
    apply Node.AllAlike.refl
    · rfl
    · rfl

end

namespace Tandem

variable {exact : Prop}

section

theorem run_along (x : Execution σ) (x' : Execution σ') (t : Tandem x.schema x.backend x'.backend)
    (grounded : x.schema.Grounded) (same : x'.schema = x.schema) {root : TypeDef}
    (known : x.schema.catalog.type? root.name = some root) {nodes nodes' : List Node}
    (alike : Node.AllAlike exact x x' (some root) nodes nodes') {store : σ} {store' : σ'}
    (level : t.level store store') :
    t.lost (x.run root nodes store).2.store ∨
      Response.Like exact (x.run root nodes store).1 (x'.run root nodes' store').1 ∧
        t.Near exact (x.run root nodes store).2 (x'.run root nodes' store').2 := by
  have along : t.Along exact (ResponseError.Like exact) Eq (x.selections root .root [] nodes)
      (x'.selections root .root [] nodes') :=
    Along.selections grounded same known (fun _ here => (Option.some.inj here).symm) [] (.same _) nodes
      nodes' alike
  have start : t.Near exact { store := store } { store := store' } :=
    ⟨level, .nil, .nil, .nil, rfl⟩
  have meets := along.meets _ _ start
  unfold Execution.run
  rcases ran : x.selections root .root [] nodes { store := store } with ⟨y, r⟩
  rcases ran' : x'.selections root .root [] nodes' { store := store' } with ⟨y', r'⟩
  rw [ran, ran'] at meets
  simp only [ExceptT.run, ran, ran']
  rcases meets with lost | ⟨agree, near⟩
  · left
    cases y <;> exact lost
  · right
    cases agree with
    | ok same => exact ⟨⟨by rw [same], List.rel_append near.caught near.absorbed⟩, near⟩
    | error like => exact ⟨⟨rfl, .cons like (List.rel_append near.caught near.absorbed)⟩, near⟩

end

variable {s : Schema} {b : Backend σ} {b' : Backend σ'}

theorem execute_keeps (t : Tandem s b b') (r : Request) {store : σ} (lost : t.lost store) :
    t.lost (s.execute b r store).store :=
  (s.execute_moves b r store).keeps t.lost (fun key u => t.lost_get key u)
    (fun op u => t.lost_commit op u) lost

theorem execute_along (t : Tandem s b b') (grounded : s.Grounded) {r r' : Request}
    (alike : Request.Alike s exact r r') {store : σ} {store' : σ'} (level : t.level store store') :
    t.lost (s.execute b r store).store ∨
      Answer.Like exact ((s.execute b r store).response, (s.execute b r store).calls)
        ((s.execute b' r' store').response, (s.execute b' r' store').calls) ∧
      t.level (s.execute b r store).store (s.execute b' r' store').store := by
  unfold Request.Alike at alike
  unfold Schema.execute
  generalize r.prepare s = p at alike ⊢
  generalize r'.prepare s = p' at alike ⊢
  cases alike with
  | error refused =>
    cases refused with
    | malformed => exact .inr ⟨⟨.none, rfl⟩, level⟩
    | errors each => exact .inr ⟨⟨.some ⟨rfl, each⟩, rfl⟩, level⟩
  | @ok m m' measured =>
    simp only [measured.kind]
    cases rooted : (s.catalog.root? m.operation.kind).bind s.catalog.type? with
    | none =>
      refine .inr ⟨⟨.some ⟨rfl, .cons ⟨?_, rfl, rfl, fun same => ?_⟩ .nil⟩, rfl⟩, level⟩
      · simp only [Validation.notConfigured, Validation.report, measured.kind]
      · simp only [Validation.notConfigured, Validation.report, measured.place same]
    | some root =>
      obtain ⟨name, _, found⟩ := Option.bind_eq_some_iff.mp rooted
      rcases run_along ⟨s, b, m.operation.variableDefs, r.values⟩
        ⟨s, b', m'.operation.variableDefs, r'.values⟩ t grounded rfl (Catalog.type?_name found)
        (measured.nodes root rooted σ σ' b b') level with lost | ⟨like, near⟩
      · exact .inl lost
      · exact .inr ⟨⟨.some like, near.calls⟩, near.store⟩

theorem serve_keeps (t : Tandem s b b') (requests : List Request) {store : σ} (lost : t.lost store) :
    t.lost (s.serve b requests store).2 := by
  induction requests generalizing store with
  | nil => exact lost
  | cons r rest ih => exact ih (t.execute_keeps r lost)

theorem serve_along (t : Tandem s b b') (grounded : s.Grounded) {requests requests' : List Request}
    (alike : List.Forall₂ (Request.Alike s exact) requests requests') {store : σ} {store' : σ'}
    (level : t.level store store') :
    t.lost (s.serve b requests store).2 ∨
      List.Forall₂ (Answer.Like exact) (s.serve b requests store).1 (s.serve b' requests' store').1 ∧
        t.level (s.serve b requests store).2 (s.serve b' requests' store').2 := by
  induction alike generalizing store store' with
  | nil => exact .inr ⟨.nil, level⟩
  | @cons r r' rest rest' one _ ih =>
    rcases t.execute_along grounded one level with lost | ⟨like, level⟩
    · exact .inl (t.serve_keeps rest lost)
    · rcases ih level with lost | ⟨more, level⟩
      · exact .inl lost
      · exact .inr ⟨.cons like more, level⟩

end Tandem

end RowGraph
