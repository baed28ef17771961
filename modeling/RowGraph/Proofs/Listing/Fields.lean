import RowGraph.Proofs.Execution.Consulted
import RowGraph.Proofs.Listing.Alone
/-!
Fields that come to their resolvers. Main statements: such a field shows what is made of the value
that its resolver hands on, as its own position settles it; and an error that leaves a field of the
root is the end of the whole operation.
-/

namespace RowGraph

variable {σ : Type}

-- What a position makes of what comes out of it.
def Exec.settled (here : Path) (nullable : Bool) :
    Except ResponseError (Option Datum) × List ResponseError →
      Except ResponseError (Option Datum) × List ResponseError
  | (.ok d, es) => (.ok d, es)
  | (.error e, es) =>
    if nullable then (.ok none, es ++ [located here e]) else (.error (located here e), es)

theorem Yields.guard (here : Path) (nullable : Bool) {y : Exec σ (Option Datum)} {r r' : Run σ}
    {shown : Except ResponseError (Option Datum) × List ResponseError}
    (yields : Yields r shown (y r')) :
    Yields r (Exec.settled here nullable shown) (Exec.guard here nullable y r') := by
  obtain ⟨own, es⟩ := shown
  obtain ⟨result, absorbed, caught, store⟩ := yields
  unfold Exec.guard
  generalize y r' = w at result absorbed caught store ⊢
  obtain ⟨result', s⟩ := w
  obtain rfl : result' = own := result
  cases result' with
  | ok d => exact ⟨rfl, absorbed, caught, store⟩
  | error e =>
    cases nullable with
    | false => exact ⟨rfl, absorbed, caught, store⟩
    | true =>
      refine ⟨rfl, ?_, caught, store⟩
      change s.absorbed ++ [Exec.located here e] = r.absorbed ++ (es ++ [Exec.located here e])
      rw [absorbed, List.append_assoc]

-- The position of an element of a field.
def Moment.element (m : Moment σ) (head : FieldHead) (i : Nat) : Path :=
  m.path ++ [.field head.key] ++ [.index i]

namespace Execution

-- At a moment a field comes to its resolver: its arguments are read, and no hook refuses it.
structure Invokes (x : Execution σ) (m : Moment σ) (head : FieldHead) (f : FieldDef)
    (arguments : Arguments) (resolver : Resolver) : Prop where
  declared : m.type.field? head.name = some f
  resolves : FieldMap.get? x.schema.resolvers m.type.name head.name = some resolver
  read : (x.givenArguments head.arguments).map (withDefaults f.arguments) = .ok arguments
  allowed : x.schema.refusal? m.type.name head.name arguments = none

-- What is made of the value that the resolver hands on.
def served (x : Execution σ) (m : Moment σ) (head : FieldHead) (f : FieldDef) (arguments : Arguments)
    (resolver : Resolver) (children : List Node) : Exec σ (Option Datum) :=
  let here := m.path ++ [.field head.key]
  ExceptT.adapt (fun e : GraphError => e.raisedAt head.loc)
      (x.resolver here head.loc arguments m.parent resolver) >>=
    Complete.outcome x.schema.catalog (x.shown children) head.loc f.type here

section

variable {x : Execution σ} {m : Moment σ} {head : FieldHead} {f : FieldDef} {arguments : Arguments}
  {resolver : Resolver} {r r' : Run σ}

theorem served_error {e : GraphError}
    (failed : x.resolver (m.path ++ [.field head.key]) head.loc arguments m.parent resolver r =
      (.error e, r')) (children : List Node) :
    x.served m head f arguments resolver children r = (.error (e.raisedAt head.loc), r') := by
  unfold served
  rw [bind_apply, adapt_apply, failed]
  rfl

theorem served_ok {o : Option Outcome}
    (given : x.resolver (m.path ++ [.field head.key]) head.loc arguments m.parent resolver r =
      (.ok o, r')) (children : List Node) :
    x.served m head f arguments resolver children r =
      Complete.outcome x.schema.catalog (x.shown children) head.loc f.type
        (m.path ++ [.field head.key]) o r' := by
  unfold served
  rw [bind_apply, adapt_apply, given]
  rfl

end

-- What a field shows at a moment: its data, or the error that leaves it, and the errors that it
-- absorbs.
def Shows (x : Execution σ) (m : Moment σ) (head : FieldHead) (f : FieldDef) (children : List Node)
    (shown : Except ResponseError (Option Datum) × List ResponseError) : Prop :=
  let settled := Exec.settled (m.path ++ [.field head.key]) f.type.nullable shown
  Yields m.run (settled.1.map fun d => [(head.key, d.getD .null)], settled.2)
    (x.selection m.type m.parent m.path (.field head children) m.run)

namespace Invokes

variable {x : Execution σ} {m : Moment σ} {head : FieldHead} {f : FieldDef} {arguments : Arguments}
  {resolver : Resolver} (invokes : x.Invokes m head f arguments resolver)

include invokes

theorem named : f.name = head.name := by
  simpa using List.find?_some invokes.declared

theorem selection (built : x.schema.Built) (children : List Node) :
    x.selection m.type m.parent m.path (.field head children) =
      (fun d => [(head.key, d.getD .null)]) <$>
        x.field m.type m.parent m.path head (x.shown children) f := by
  obtain ⟨name, aside⟩ := built.declared_field m.type invokes.resolves
  rw [Execution.selection, if_neg name, show x.entrance? m.type head.name = none from aside,
    invokes.declared, map_eq_pure_bind]
  rfl

-- Hooks leave a note of having been called, and nothing else.
theorem field (children : List Node) : ∃ calls,
    x.field m.type m.parent m.path head (x.shown children) f m.run =
      Exec.guard (m.path ++ [.field head.key]) f.type.nullable
        (x.served m head f arguments resolver children) { m.run with calls } := by
  obtain ⟨given, read, rfl⟩ : ∃ given, x.givenArguments head.arguments = .ok given ∧
      withDefaults f.arguments given = arguments := by
    have read := invokes.read
    cases found : x.givenArguments head.arguments with
    | error e => rw [found] at read; cases read
    | ok given => rw [found] at read; exact ⟨given, rfl, Except.ok.inj read⟩
  let hooks := (FieldMap.get? x.schema.hooks m.type.name head.name).getD []
  have allowed : Hook.refusalAmong (withDefaults f.arguments given) hooks = none := invokes.allowed
  let calls := m.run.calls ++
    Hook.calls m.type.name head.name (withDefaults f.arguments given) hooks
  have hooked : runHooks m.type.name head.name head.loc (withDefaults f.arguments given) hooks m.run =
      (.ok (), { m.run with calls }) := by rw [runHooks_called, allowed]
  have ready : x.arguments f head m.run = (.ok (withDefaults f.arguments given), m.run) := by
    unfold Execution.arguments
    rw [read]
    rfl
  have value : (x.declaredField m.type.name f.name (m.path ++ [.field head.key]) head.loc
        (withDefaults f.arguments given) m.parent >>= Complete.outcome x.schema.catalog
        (x.shown children) head.loc f.type (m.path ++ [.field head.key])) m.run =
      x.served m head f (withDefaults f.arguments given) resolver children { m.run with calls } := by
    unfold served declaredField
    rw [invokes.named, bind_assoc, bind_apply, hooked, invokes.resolves]
  refine ⟨calls, ?_⟩
  unfold Execution.field
  rw [bind_apply, ready]
  unfold Exec.guard
  simp only
  rw [value]

-- So it goes by what is made of the value, whatever hooks have been called.
theorem shows (built : x.schema.Built) {children : List Node}
    {shown : Except ResponseError (Option Datum) × List ResponseError}
    (yields : ∀ calls, Yields { m.run with calls } shown
      (x.served m head f arguments resolver children { m.run with calls })) :
    x.Shows m head f children shown := by
  obtain ⟨calls, ran⟩ := invokes.field children
  have guarded := (yields calls).uncalled.guard (m.path ++ [.field head.key]) f.type.nullable
  rw [← ran] at guarded
  unfold Shows
  rw [invokes.selection built]
  exact guarded.map _

end Invokes

end Execution

theorem Arrives.inside {c : Catalog} {object : Complete.ObjectData σ} {loc : Location}
    {type : TypeExpr} {path q : Path} {o o' : Outcome} {r r' : Run σ} {t : TypeDef}
    (arrives : Arrives c object loc type path o r t o' q r') : path <+: q := by
  induction arrives with
  | object => exact List.prefix_rfl
  | element _ _ _ _ ih => exact (List.prefix_append _ _).trans ih

-- The execution is never at the root again once it has left it.
theorem Execution.Reaches.top {x : Execution σ} {root : TypeDef} {nodes : List Node} {store : σ}
    {m : Moment σ} (reaches : x.Reaches root nodes store m) (top : m.path = []) :
    m.parent = .root := by
  induction reaches with
  | refl => rfl
  | tail _ leads ih =>
    cases leads with
    | next _ => exact ih top
    | group _ => exact ih top
    | inside _ _ _ _ arrives =>
      obtain ⟨u, same⟩ := arrives.inside
      obtain rfl : _ = [] := top
      simp at same

-- What leaves a selection on the root ends the operation.
theorem Execution.Reaches.stops {x : Execution σ} {root : TypeDef} {nodes : List Node} {store : σ}
    {m : Moment σ} (reaches : x.Reaches root nodes store m) (top : m.path = []) {e : ResponseError}
    {r : Run σ} (stopped : x.selections m.type m.parent m.path m.nodes m.run = (.error e, r)) :
    x.selections root .root [] nodes { store } = (.error e, r) := by
  induction reaches with
  | refl => exact stopped
  | tail _ leads ih =>
    cases leads with
    | next ran =>
      refine ih top ?_
      rw [Execution.selections, bind_apply, ran]
      simp only
      rw [bind_apply, stopped]
    | group applies =>
      refine ih top ?_
      rw [Execution.selections, bind_apply, Execution.selection, if_pos applies, stopped]
    | inside _ _ _ _ arrives =>
      obtain ⟨u, same⟩ := arrives.inside
      obtain rfl : _ = [] := top
      simp at same

end RowGraph
