import RowGraph.Proofs.Execution.Arguments
import RowGraph.Proofs.Execution.Marks
import RowGraph.Proofs.Propagation.Watch
/-!
Induction over an execution. A law says something of every computation at a position, by the state
that it starts from and what was seen of it; it has to be kept by steps in a row, by elements, by
the invocation of a field and by a look at the description. What it may assume of an object is
fixed with it. Main statement: a law holds of every selection.
-/

namespace RowGraph

open Watched

variable {σ α : Type}

-- All that a type expression asks of an outcome, name by name, is that the objects in it are in
-- order.
def Fits (c : Catalog) (Ok : TypeDef → Outcome → Prop) : TypeExpr → Outcome → Prop
  | .named name _, o => ∀ t, c.type? name = some t → Ok t o
  | .list item _, o => ∀ items, itemsOf? o = some items → ∀ i ∈ items, Fits c Ok item i

theorem Fits.imp {c : Catalog} {Ok Ok' : TypeDef → Outcome → Prop} (imp : ∀ t o, Ok t o → Ok' t o)
    {type : TypeExpr} {o : Outcome} (fits : Fits c Ok type o) : Fits c Ok' type o := by
  induction type generalizing o with
  | named name nonNull =>
    intro t known
    exact imp t o (fits t known)
  | list item nonNull ih =>
    intro items shown i member
    exact ih (fits items shown i member)

theorem fits_of_known {c : Catalog} {Ok : TypeDef → Outcome → Prop}
    (all : ∀ name t o, c.type? name = some t → Ok t o) (type : TypeExpr) (o : Outcome) :
    Fits c Ok type o := by
  induction type generalizing o with
  | named name nonNull =>
    intro t known
    exact all name t o known
  | list item nonNull ih =>
    intro _ _ i _
    exact ih i

-- A computation that changes nothing, with errors of its own position only, and without a code.
def Raises (p : Path) (x : Exec σ α) : Prop :=
  ∀ r, (∃ a, x r = (.ok a, r)) ∨
    ∃ e, (e.path = [] ∨ e.path = p) ∧ e.code = none ∧ x r = (.error e, r)

namespace Raises

variable {p : Path}

theorem pure (a : α) : Raises p (Pure.pure a : Exec σ α) := fun _ => .inl ⟨a, rfl⟩

theorem fail (loc : Location) (message : String) :
    Raises p (Complete.fail p loc message : Exec σ α) := fun _ => .inr ⟨_, .inr rfl, rfl, rfl⟩

theorem absent (nonNull : Bool) (loc : Location) :
    Raises p (Complete.absent nonNull p loc : Exec σ (Option Datum)) := by
  cases nonNull with
  | true => exact fail loc _
  | false => exact pure none

theorem enumValue (t : TypeDef) (values : List String) (loc : Location) (o : Outcome) :
    Raises p (Complete.enumValue t values p loc o : Exec σ Datum) := by
  unfold Complete.enumValue
  split
  · split
    · exact pure _
    · exact fail loc _
  · split
    · exact pure _
    · exact fail loc _
  · exact fail loc _

theorem leaf (t : TypeDef) (loc : Location) (o : Outcome) :
    Raises p (Complete.value t (fun _ _ _ => Pure.pure .null) p loc o : Exec σ Datum) := by
  unfold Complete.value
  split
  · exact pure _
  · exact enumValue t _ loc o
  · split
    · exact pure _
    · exact fail loc _

theorem arguments (x : Execution σ) (f : FieldDef) (head : FieldHead) :
    Raises p (x.arguments f head) := by
  intro r
  refine (x.arguments_apply f head r).imp_right ?_
  rintro ⟨e, bare, failed⟩
  exact ⟨e, .inl bare.path, bare.code, failed⟩

end Raises

structure Steps (P : (α : Type) → Path → Run σ → Watch σ α → Prop) : Prop where
  give : ∀ (α : Type) p r (a : α), P α p r ⟨.ok a, r, []⟩
  raise : ∀ (α : Type) p r e, (e.path = [] ∨ e.path = p) → e.code = none →
    P α p r ⟨.error (.raised e), r, []⟩
  next : ∀ (α β : Type) p r (w : Watch σ α) (a : α) (w' : Watch σ β), P α p r w → w.result = .ok a →
    P β p w.run w' → P β p r ⟨w'.result, w'.run, w.seen ++ w'.seen⟩
  stop : ∀ (α β : Type) p r (w : Watch σ α) fault, P α p r w → w.result = .error fault →
    P β p r ⟨.error fault, w.run, w.seen⟩
  atElement : ∀ p (i : Nat) nullable (body : Watched σ (Option Datum)) r,
    P _ (p ++ [.index i]) (Exec.takeMark (p ++ [.index i]) r).2
      (body (Exec.takeMark (p ++ [.index i]) r).2) →
    P _ p r (element (p ++ [.index i]) nullable body r)

namespace Steps

variable {P : (α : Type) → Path → Run σ → Watch σ α → Prop} (steps : Steps P)

include steps

theorem bind {β : Type} {p : Path} {r : Run σ} {x : Watched σ α} {f : α → Watched σ β}
    (first : P α p r (x r))
    (rest : ∀ a, (x r).result = .ok a → P β p (x r).run (f a (x r).run)) :
    P β p r ((x >>= f) r) := by
  change P β p r (Watched.bind x f r)
  unfold Watched.bind
  cases result : (x r).result with
  | ok a => simp only [result]; exact steps.next α β p r (x r) a _ first result (rest a result)
  | error fault => simp only [result]; exact steps.stop α β p r (x r) fault first result

theorem map {β : Type} {p : Path} {r : Run σ} {x : Watched σ α} (f : α → β)
    (inside : P α p r (x r)) : P β p r ((f <$> x) r) :=
  steps.bind inside fun a _ => steps.give β p _ (f a)

theorem own {p : Path} {x : Exec σ α} (raises : Raises p x) (r : Run σ) : P α p r (own x r) := by
  unfold Watched.own
  rcases raises r with ⟨a, ran⟩ | ⟨e, placed, plain, ran⟩
  · rw [ran]; exact steps.give α p r a
  · rw [ran]; exact steps.raise α p r e placed plain

end Steps

section

variable {P : (α : Type) → Path → Run σ → Watch σ α → Prop} {Ok : σ → TypeDef → Outcome → Prop}

-- Objects that are in order stay in order while the execution goes on.
def Lasting (P : (α : Type) → Path → Run σ → Watch σ α → Prop)
    (Ok : σ → TypeDef → Outcome → Prop) : Prop :=
  ∀ (α : Type) p r (w : Watch σ α) t o, P α p r w → Ok r.store t o → Ok w.run.store t o

-- The data of every object that is in order keeps the law.
def Objects (P : (α : Type) → Path → Run σ → Watch σ α → Prop)
    (Ok : σ → TypeDef → Outcome → Prop) (object : ObjectData σ) : Prop :=
  ∀ r t o q, Ok r.store t o → P _ q r (object t o q r)

def Composes (object : ObjectData σ) : Prop :=
  ∀ t o q r d, (object t o q r).result = .ok d → ∃ members, d = .object members

namespace Steps

variable (steps : Steps P) (lasting : Lasting P Ok)

include steps

theorem ofValue {object : ObjectData σ} (objects : Objects P Ok object) {t : TypeDef}
    {o : Outcome} {r : Run σ} (ok : Ok r.store t o) (p : Path) (loc : Location) :
    P _ p r (value t object p loc o r) := by
  unfold Watched.value
  cases t.body with
  | object fields => exact objects r t o p ok
  | _ => exact steps.own (Raises.leaf t loc o) r

include lasting

theorem ofElements {c : Catalog} {item : TypeExpr} {nullable : Bool} {p : Path}
    {body : Path → Outcome → Watched σ (Option Datum)}
    (inside : ∀ r q o, Fits c (Ok r.store) item o → P _ q r (body q o r)) (items : List Outcome)
    (index : Nat) (r : Run σ) (fit : ∀ i ∈ items, Fits c (Ok r.store) item i) :
    P _ p r (elements nullable p body index items r) := by
  induction items generalizing index r with
  | nil => exact steps.give _ p r []
  | cons o rest ih =>
    have taken : (Exec.takeMark (p ++ [.index index]) r).2.store = r.store :=
      (Exec.takeMark_eq _ r).2.1
    have first : P _ p r (element (p ++ [.index index]) nullable (body (p ++ [.index index]) o) r) := by
      refine steps.atElement p index nullable _ r (inside _ _ o ?_)
      rw [taken]
      exact fit o List.mem_cons_self
    refine steps.bind first fun d _ => ?_
    refine steps.bind (ih (index + 1) _ fun i member => ?_) fun ds _ => steps.give _ p _ _
    exact (fit i (List.mem_cons_of_mem _ member)).imp fun t o => lasting _ p r _ t o first

theorem ofOutcome {c : Catalog} {object : ObjectData σ} (objects : Objects P Ok object)
    (loc : Location) (type : TypeExpr) (p : Path) (o : Option Outcome) (r : Run σ)
    (fit : ∀ found, o = some found → Fits c (Ok r.store) type found) :
    P _ p r (outcome c object loc type p o r) := by
  induction type generalizing p o r with
  | named name nonNull =>
    cases o with
    | none => exact steps.own (Raises.absent _ loc) r
    | some o =>
      unfold Watched.outcome
      cases known : c.type? name with
      | none => exact steps.give _ p r none
      | some t => exact steps.map some (steps.ofValue objects (fit o rfl t known) p loc)
  | list item nonNull ih =>
    cases o with
    | none => exact steps.own (Raises.absent _ loc) r
    | some o =>
      unfold Watched.outcome
      cases shown : itemsOf? o with
      | none => exact steps.own (Raises.fail loc _) r
      | some items =>
        refine steps.map _ (steps.ofElements lasting ?_ items 0 r (fit o rfl items shown))
        intro r q i fits
        exact ih q (some i) r fun found same => Option.some.inj same ▸ fits

end Steps

structure Law (x : Execution σ) (P : (α : Type) → Path → Run σ → Watch σ α → Prop)
    (Ok : σ → TypeDef → Outcome → Prop) : Prop extends Steps P where
  lasting : Lasting P Ok
  invocation : ∀ type parent p key loc object f arguments r, Ok r.store type parent →
    type.field? f.name = some f → Objects P Ok object → Composes object →
    P _ p r (x.watchInvocation type parent (p ++ [.field key]) loc object f arguments r)
  description : ∀ type parent p head f children r, Ok r.store type parent →
    x.entrance? type head.name = some f → P _ p r (x.watchDescription p head f children r)

namespace Law

variable {x : Execution σ} (law : Law x P Ok)

include law

theorem ofField {type : TypeDef} {parent : Outcome} {p : Path} {head : FieldHead}
    {object : ObjectData σ} {f : FieldDef} {r : Run σ} (ok : Ok r.store type parent)
    (declared : type.field? f.name = some f) (objects : Objects P Ok object)
    (composes : Composes object) : P _ p r (x.watchField type parent p head object f r) := by
  have read : P _ p r (own (x.arguments f head) r) := law.own (Raises.arguments x f head) r
  refine law.bind read fun arguments _ => ?_
  exact law.invocation type parent p _ _ object f arguments _ (law.lasting _ p r _ _ _ read ok)
    declared objects composes

mutual

theorem ofSelection {type : TypeDef} {parent : Outcome} : ∀ (n : Node) (p : Path) (r : Run σ),
    Ok r.store type parent → P _ p r (x.watchSelection type parent p n r)
  | .group condition _ children, p, r, ok => by
    rw [Execution.watchSelection]
    split
    · exact ofSelections children p r ok
    · exact law.give _ p r []
  | .field head children, p, r, ok => by
    rw [Execution.watchSelection]
    split
    · exact law.give _ p r _
    · cases entered : x.entrance? type head.name with
      | some f =>
        have described := law.description type parent p head f children r ok entered
        exact law.bind described fun d _ => law.give _ p _ _
      | none =>
        cases declared : type.field? head.name with
        | none => exact law.give _ p r []
        | some f =>
          have named : f.name = head.name := by
            simpa using List.find?_some declared
          refine law.bind (law.ofField ok (named ▸ declared) ?_ ?_) fun d _ => law.give _ p _ _
          · intro r t o q inside
            exact law.map _ (ofSelections children q r inside)
          · intro t o q r d made
            obtain ⟨results, _, rfl⟩ := result_map made
            exact ⟨_, rfl⟩

theorem ofSelections {type : TypeDef} {parent : Outcome} :
    ∀ (nodes : List Node) (p : Path) (r : Run σ),
    Ok r.store type parent → P _ p r (x.watchSelections type parent p nodes r)
  | [], p, r, _ => by
    rw [Execution.watchSelections]
    exact law.give _ p r []
  | n :: rest, p, r, ok => by
    rw [Execution.watchSelections]
    have first := ofSelection n p r ok
    refine law.bind first fun results _ => ?_
    have later := ofSelections rest p _ (law.lasting _ p r _ _ _ first ok)
    exact law.bind later fun more _ => law.give _ p _ _

end

-- What the selections on an object show of it.
theorem ofObjects (children : List Node) :
    Objects P Ok fun t o here => Datum.ofResults <$> x.watchSelections t o here children :=
  fun r _ _ q inside => law.map _ (law.ofSelections children q r inside)

end Law

end

theorem composes_shown (x : Execution σ) (children : List Node) :
    Composes fun t o here => Datum.ofResults <$> x.watchSelections t o here children := by
  intro t o q r d made
  obtain ⟨results, _, rfl⟩ := result_map made
  exact ⟨_, rfl⟩

end RowGraph
