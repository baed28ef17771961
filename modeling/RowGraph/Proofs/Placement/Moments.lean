import Mathlib.Logic.Relation
import RowGraph.Proofs.Placement.Waiting
/-!
The moments of an execution: the objects that it comes to, with the selections that are still to be
made of each and the state that it is in by then. Main statements: at every moment nothing waits below
an object other than the root, and below the fields of the root at most marks for elements of their
lists; and a query finds the store at every moment as it was at its start.
-/

namespace RowGraph

variable {σ : Type}

structure Moment (σ : Type) where
  type : TypeDef
  parent : Outcome
  path : Path
  nodes : List Node
  run : Run σ

-- How what a resolver has delivered leads to an object: by itself, or as an element of a list that
-- has had its turn after those before it and has found no mark.
inductive Arrives (c : Catalog) (object : Complete.ObjectData σ) (loc : Location) :
    TypeExpr → Path → Outcome → Run σ → TypeDef → Outcome → Path → Run σ → Prop where
  | object {name : String} {nonNull : Bool} {path : Path} {o : Outcome} {r : Run σ} {t : TypeDef} :
      c.type? name = some t → Arrives c object loc (.named name nonNull) path o r t o path r
  | element {item : TypeExpr} {nonNull : Bool} {path q : Path} {o i o' : Outcome}
      {before after : List Outcome} {ds : List Datum} {r r₁ r₂ r' : Run σ} {t : TypeDef} :
      Watched.itemsOf? o = some (before ++ i :: after) →
      Complete.elements item.nullable path
        (fun here o => Complete.outcome c object loc item here (some o)) 0 before r = (.ok ds, r₁) →
      Exec.takeMark (path ++ [.index before.length]) r₁ = (none, r₂) →
      Arrives c object loc item (path ++ [.index before.length]) i r₂ t o' q r' →
      Arrives c object loc (.list item nonNull) path o r t o' q r'

namespace Execution

-- What the data of an object is made of.
def shown (x : Execution σ) (children : List Node) : Complete.ObjectData σ := fun t o here =>
  Datum.ofResults <$> x.selections t o here children

inductive Leads (x : Execution σ) : Moment σ → Moment σ → Prop where
  | next {type : TypeDef} {parent : Outcome} {path : Path} {n : Node} {rest : List Node}
      {r r' : Run σ} {results : List (String × Datum)} :
      x.selection type parent path n r = (.ok results, r') →
      Leads x ⟨type, parent, path, n :: rest, r⟩ ⟨type, parent, path, rest, r'⟩
  | group {type : TypeDef} {parent : Outcome} {path : Path} {condition : Option String}
      {directives : List DirectiveCall} {children rest : List Node} {r : Run σ} :
      applies type.name condition = true →
      Leads x ⟨type, parent, path, .group condition directives children :: rest, r⟩
        ⟨type, parent, path, children, r⟩
  | inside {type t : TypeDef} {parent o o' : Outcome} {path q : Path} {head : FieldHead}
      {children rest : List Node} {r r₁ r₂ r' : Run σ} {f : FieldDef} {arguments : Arguments} :
      x.entrance? type head.name = none → type.field? head.name = some f →
      x.arguments f head r = (.ok arguments, r₁) →
      x.declaredField type.name f.name (path ++ [.field head.key]) head.loc arguments parent r₁ =
        (.ok (some o), r₂) →
      Arrives x.schema.catalog (x.shown children) head.loc f.type (path ++ [.field head.key]) o r₂
        t o' q r' →
      Leads x ⟨type, parent, path, .field head children :: rest, r⟩ ⟨t, o', q, children, r'⟩

-- The execution of an operation comes to a moment.
def Reaches (x : Execution σ) (root : TypeDef) (nodes : List Node) (store : σ) (m : Moment σ) :
    Prop :=
  Relation.ReflTransGen x.Leads ⟨root, .root, [], nodes, { store }⟩ m

end Execution

-- What holds at every moment of an operation with a root type.
inductive Moment.Sound (x : Execution σ) (root : TypeDef) (store : σ) (m : Moment σ) : Prop where
  | root : m.type = root → m.path = [] → (Unwriting x.schema root → m.run.store = store) →
      Orderly m.run.marks → Sound x root store m
  | inner : x.schema.Inner m.type → (Unwriting x.schema root → m.run.store = store) →
      Listed m.path m.run.marks → Sound x root store m

namespace Moment.Sound

variable {x : Execution σ} {root : TypeDef} {store : σ} {m : Moment σ}

theorem known (known : x.schema.catalog.type? root.name = some root) (sound : m.Sound x root store) :
    x.schema.catalog.type? m.type.name = some m.type := by
  cases sound with
  | root same _ _ _ => exact same ▸ known
  | inner inner _ _ => exact inner.known

theorem kept (sound : m.Sound x root store) (unwriting : Unwriting x.schema root) :
    m.run.store = store := by
  cases sound with
  | root _ _ kept _ => exact kept unwriting
  | inner _ kept _ => exact kept unwriting

-- Below its next field only elements of its list may be marked.
theorem listed (sound : m.Sound x root store) (key : String) :
    Listed (m.path ++ [.field key]) m.run.marks := by
  cases sound with
  | root _ here _ orderly =>
    rw [here]
    exact orderly key
  | inner _ _ listed => exact listed.inner (.field key)

end Moment.Sound

theorem Arrives.listed {c : Catalog} {object : Complete.ObjectData σ} {loc : Location}
    {type : TypeExpr} {path q : Path} {o o' : Outcome} {r r' : Run σ} {t : TypeDef}
    (arrives : Arrives c object loc type path o r t o' q r')
    (objects : ∀ t o q, c.type? type.name = some t → Clears q (object t o q))
    (listed : Listed path r.marks) :
    c.type? type.name = some t ∧ r'.store = r.store ∧ Listed q r'.marks := by
  induction arrives with
  | object known => exact ⟨known, rfl, listed⟩
  | @element item nonNull path q o i o' before after ds r r₁ r₂ r' t _ ran taken _ ih =>
    have clears : Clears path (Complete.elements item.nullable path
        (fun here o => Complete.outcome c object loc item here (some o)) 0 before) :=
      Clears.elements item.nullable (fun i o => Clears.outcome item objects loc (some o)) before 0
    have start := clears r listed
    rw [ran] at start
    have step := Aside.takeMark path (.index before.length) r₁
    rw [taken] at step
    obtain ⟨known, store, listed'⟩ := ih objects
      (((listed.keep start).keep step).inner (.index before.length))
    exact ⟨known, store.trans (step.store.trans start.store), listed'⟩

-- A value has come out of a resolver, after the hooks have had their turn.
theorem Execution.declaredField_some {x : Execution σ} {type field : String} {here : Path}
    {loc : Location} {arguments : Arguments} {parent o : Outcome} {r r' : Run σ}
    (ran : x.declaredField type field here loc arguments parent r = (.ok (some o), r')) :
    ∃ resolver r₀, FieldMap.get? x.schema.resolvers type field = some resolver ∧
      Steady x.backend r r₀ ∧ x.resolver here loc arguments parent resolver r₀ = (.ok (some o), r') := by
  have declared := x.declaredField_declared type field here loc arguments parent r
  rw [ran] at declared
  generalize given : (Except.ok (some o) : Except ResponseError (Option Outcome)) = result at declared
  cases declared with
  | refused => cases given
  | unserved => cases given
  | @resolved r₀ _ resolver result _ resolves steady ran _ =>
    cases result with
    | error e => cases given
    | ok o' =>
      obtain rfl := Except.ok.inj given
      exact ⟨resolver, r₀, resolves, steady, ran⟩

namespace Execution.Calm

variable {x : Execution σ} (calm : x.Calm)

include calm

-- Where the root only reads, no resolver writes.
theorem resolver_reads {root : TypeDef} {store : σ} {m : Moment σ} (sound : m.Sound x root store)
    (unwriting : Unwriting x.schema root) {field : String} {resolver : Resolver}
    (resolves : FieldMap.get? x.schema.resolvers m.type.name field = some resolver)
    (plan : MutationPlan) : resolver ≠ .mutation plan := by
  rintro rfl
  cases sound with
  | root same _ _ _ => exact unwriting.reads field ⟨plan, same ▸ resolves⟩
  | inner inner _ _ => cases calm.built.grounded.local_of_inner inner resolves

-- One step keeps what holds.
theorem leads_sound {root : TypeDef} (known : x.schema.catalog.type? root.name = some root)
    {store : σ} {m m' : Moment σ} (sound : m.Sound x root store) (leads : x.Leads m m') :
    m'.Sound x root store := by
  have grounded := calm.built.grounded
  cases leads with
  | @next type parent path n rest r r' results ran =>
    cases sound with
    | root same here kept orderly =>
      obtain rfl : path = [] := here
      obtain rfl : type = root := same
      have upkeep := calm.selection_upkeeps known parent n r orderly
      rw [ran] at upkeep
      exact .root rfl rfl (fun reads => (upkeep.store reads).trans (kept reads))
        (upkeep.orderly orderly)
    | inner inner kept listed =>
      have aside := calm.selection_clears inner parent path n r listed
      rw [ran] at aside
      exact .inner inner (fun reads => aside.store.trans (kept reads)) (listed.keep aside)
  | group applies =>
    cases sound with
    | root same here kept orderly => exact .root same here kept orderly
    | inner inner kept listed => exact .inner inner kept listed
  | @inside type t parent o o' path q head children rest r r₁ r₂ r' f arguments entrance declared read
      ran arrives =>
    obtain rfl : r₁ = r := by
      rcases x.arguments_apply f head r with ⟨_, same⟩ | ⟨_, _, same⟩
      · exact (Prod.mk.inj (read.symm.trans same)).2
      · exact (Prod.mk.inj (read.symm.trans same)).2
    obtain ⟨resolver, r₀, resolves, steady, ran⟩ := x.declaredField_some ran
    have resolved := x.resolver_resolved (path ++ [.field head.key]) head.loc arguments parent
      resolver r₀
    rw [ran] at resolved
    have hooked := steady.aside calm.still (path ++ [.field head.key])
    have known : x.schema.catalog.type? type.name = some type := sound.known known
    have named : f.name = head.name := by simpa using List.find?_some declared
    have inner {t : TypeDef} (found : x.schema.catalog.type? f.type.name = some t) :
        x.schema.Inner t := grounded.inner_of_field known (named ▸ declared) resolves found
    obtain ⟨found, store', listed⟩ := arrives.listed
      (fun t o q found => (calm.selections_clears (inner found) o q children).map _)
      (resolved.listed ((sound.listed head.key).keep hooked))
    refine .inner (inner found) (fun reads => ?_) listed
    have still := resolved.still calm.still
      (Resolver.sends_nil (calm.resolver_reads sound reads resolves) arguments)
    exact store'.trans (still.trans (hooked.store.trans (sound.kept reads)))

theorem reaches_sound {root : TypeDef} (known : x.schema.catalog.type? root.name = some root)
    {nodes : List Node} {store : σ} {m : Moment σ} (reaches : x.Reaches root nodes store m) :
    m.Sound x root store := by
  induction reaches with
  | refl =>
    refine .root rfl rfl (fun _ => rfl) fun key u mark _ found => ?_
    cases found
  | tail _ leads ih => exact calm.leads_sound known ih leads

-- A query finds the store at every moment as it was at its start.
theorem reaches_kept {root : TypeDef}
    (known : x.schema.catalog.type? x.schema.document.query = some root) {nodes : List Node}
    {store : σ} {m : Moment σ} (reaches : x.Reaches root nodes store m) : m.run.store = store := by
  refine (calm.reaches_sound (Catalog.type?_name known) reaches).kept
    ⟨Catalog.type?_name known, fun field => ?_⟩
  rw [Catalog.name_of_type? known]
  exact calm.built.grounded.query_unwriting field

end Execution.Calm

theorem Execution.Plain.reaches_sound {x : Execution σ} (plain : x.Plain) {root : TypeDef}
    (known : x.schema.catalog.type? root.name = some root) {nodes : List Node} {store : σ}
    {m : Moment σ} (reaches : x.Reaches root nodes store m) : m.Sound x root store :=
  plain.calm.reaches_sound known reaches

end RowGraph
