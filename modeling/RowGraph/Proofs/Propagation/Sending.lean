import RowGraph.Proofs.Execution.Declared
import RowGraph.Proofs.Execution.Inquiry
import RowGraph.Proofs.Propagation.Law
/-!
What a request sends to the store. Every mutation field that no hook refuses sends the operation of
its items, in the order in which the fields are invoked, and nothing else is sent. Main statement:
this is a law.
-/

namespace RowGraph

variable {σ : Type}

namespace Invocation

mutual

-- All positions, the outer before the inner.
def visits : Invocation → List Visit
  | .position v inside => v :: visitsOf inside
  | .description _ _ => []

def visitsOf : List Invocation → List Visit
  | [] => []
  | i :: rest => i.visits ++ visitsOf rest

end

theorem visitsOf_append (left right : List Invocation) :
    visitsOf (left ++ right) = visitsOf left ++ visitsOf right := by
  induction left with
  | nil => rfl
  | cons i rest ih => simp [visitsOf, ih]

theorem visitsOf_subset_left (left right : List Invocation) :
    visitsOf left ⊆ visitsOf (left ++ right) := by
  rw [visitsOf_append]
  exact List.subset_append_left _ _

theorem visitsOf_subset_right (left right : List Invocation) :
    visitsOf right ⊆ visitsOf (left ++ right) := by
  rw [visitsOf_append]
  exact List.subset_append_right _ _

theorem visitsOf_position (v : Visit) (inside : List Invocation) :
    visitsOf [.position v inside] = v :: visitsOf inside := by
  simp [visitsOf, visits]

end Invocation

namespace Schema

def sent (s : Schema) (v : Visit) : List Operation :=
  match v.place.asked with
  | some a => s.sends a.type a.field a.arguments
  | none => []

def items (s : Schema) (type field : String) (arguments : Arguments) : List (Binding × Datum) :=
  match s.refusal? type field arguments, FieldMap.get? s.resolvers type field with
  | none, some (.mutation plan) =>
    match (Members.get? plan.argument arguments).bind Datum.asObject? with
    | some input => Commit.items plan.bindings input
    | none => []
  | _, _ => []

def listed (s : Schema) (v : Visit) : List (Binding × Datum) :=
  match v.place.asked with
  | some a => s.items a.type a.field a.arguments
  | none => []

end Schema

-- What a computation has sent is what its invocations send.
def SendsListed (x : Execution σ) (α : Type) (_ : Path) (r : Run σ) (w : Watch σ α) : Prop :=
  Sends x.backend r.store ((Invocation.visitsOf w.seen).flatMap x.schema.sent) w.run.store

namespace SendsListed

variable {x : Execution σ}

theorem close {v : Visit} {r r' : Run σ} {w : Watch σ (Option Datum)} {p : Path}
    (before : Sends x.backend r.store (x.schema.sent v) r'.store)
    (inside : SendsListed x _ p r' w) : SendsListed x _ p r (Watched.close v w) := by
  obtain ⟨v', closed⟩ := Watched.close_closed v w
  have same : x.schema.sent v' = x.schema.sent v := by
    unfold Schema.sent
    rw [closed.place]
  unfold SendsListed
  rw [closed.seen, closed.store, Invocation.visitsOf_position, List.flatMap_cons, same]
  exact before.trans inside

theorem steps : Steps (SendsListed x) where
  give _ _ _ _ := .nothing
  raise _ _ _ _ _ _ := .nothing
  next _ _ _ _ _ _ _ first _ rest := by
    unfold SendsListed
    rw [Invocation.visitsOf_append, List.flatMap_append]
    exact first.trans rest
  stop _ _ _ _ _ _ first _ := first
  atElement p i nullable body r inside := by
    have taken : (Exec.takeMark (p ++ [.index i]) r).2.store = r.store :=
      (Exec.takeMark_eq (p ++ [.index i]) r).2.1
    obtain ⟨v, w, closes, unasked, found⟩ :=
      Watched.element_close (p ++ [.index i]) nullable body r
    have before : Sends x.backend r.store (x.schema.sent v) (Exec.takeMark (p ++ [.index i]) r).2.store := by
      unfold Schema.sent
      rw [unasked, taken]
      exact .nothing
    rw [closes]
    rcases found with rfl | ⟨run, seen⟩
    · exact close (p := p) before inside
    · refine close (p := p) before ?_
      unfold SendsListed
      rw [run, seen]
      exact .nothing

theorem invocation {type : TypeDef} {parent : Outcome} {p : Path} {key : String} {loc : Location}
    {object : Watched.ObjectData σ} {f : FieldDef} {arguments : Arguments} {r : Run σ}
    (objects : Objects (SendsListed x) (fun _ _ _ => True) object) :
    SendsListed x _ p r
      (x.watchInvocation type parent (p ++ [.field key]) loc object f arguments r) := by
  have sent := (x.declaredField_declared type.name f.name (p ++ [.field key]) loc arguments parent
    r).sends
  unfold Execution.watchInvocation
  split
  · rename_i o r' ran
    rw [ran] at sent
    refine close (p := p) sent ?_
    exact steps.ofOutcome (c := x.schema.catalog) (fun _ _ _ _ _ _ _ _ => trivial) objects loc
      f.type (p ++ [.field key]) o r' fun found _ => fits_of_known (fun _ _ _ _ => trivial) _ found
  · rename_i e r' ran
    rw [ran] at sent
    exact close (p := p) sent .nothing

theorem description (p : Path) (head : FieldHead) (f : FieldDef) (children : List Node)
    (r : Run σ) : SendsListed x _ p r (x.watchDescription p head f children r) := by
  obtain ⟨run, stopped, left, seen⟩ := x.watchDescription_record p head f children r
  unfold SendsListed
  rw [seen, run, (Asides.enterDescription x p head f children r).store]
  exact .nothing

theorem law (x : Execution σ) : Law x (SendsListed x) fun _ _ _ => True where
  toSteps := steps
  lasting _ _ _ _ _ _ _ _ := trivial
  invocation _ _ _ _ _ _ _ _ _ _ _ objects _ := invocation objects
  description _ _ p head f children r _ _ := description p head f children r

end SendsListed

def Commit.sendsOf (listed : List (Binding × Datum)) : List Operation :=
  match addItems {} listed with
  | .ok op => if op.isEmpty then [] else [op]
  | .error _ => []

theorem Commit.sendsOf_item {b : Binding} {d : Datum} {w : Demand} (asks : Asks b d w) :
    sendsOf [(b, d)] = [ask {} w] := by
  have collected : addItems {} [(b, d)] = .ok (ask {} w) :=
    addItems_of_asks (List.Forall₂.cons asks .nil) {}
  unfold sendsOf
  rw [collected]
  rfl

theorem Schema.sends_eq (s : Schema) (type field : String) (arguments : Arguments) :
    s.sends type field arguments = Commit.sendsOf (s.items type field arguments) := by
  unfold sends items
  cases s.refusal? type field arguments with
  | some message => rfl
  | none =>
    cases FieldMap.get? s.resolvers type field with
    | none => rfl
    | some resolver =>
      cases resolver with
      | mutation plan =>
        simp only [Resolver.sends, Commit.sends]
        cases (Members.get? plan.argument arguments).bind Datum.asObject? with
        | none => rfl
        | some input => rfl
      | _ => rfl

theorem Schema.sent_eq (s : Schema) (v : Visit) : s.sent v = Commit.sendsOf (s.listed v) := by
  unfold sent listed
  cases v.place.asked with
  | none => rfl
  | some a => exact s.sends_eq a.type a.field a.arguments

-- Of positions that list a single item together, only one sends something.
theorem Schema.sent_single {s : Schema} {visits : List Visit} {b : Binding} {d : Datum}
    {w : Commit.Demand} (one : visits.flatMap s.listed = [(b, d)]) (asks : Commit.Asks b d w) :
    visits.flatMap s.sent = [Commit.ask {} w] := by
  have nothing (rest : List Visit) (empty : rest.flatMap s.listed = []) :
      rest.flatMap s.sent = [] := by
    rw [List.flatMap_eq_nil_iff] at empty ⊢
    intro v member
    rw [s.sent_eq, empty v member]
    rfl
  induction visits with
  | nil => cases one
  | cons v rest ih =>
    rw [List.flatMap_cons] at one ⊢
    rcases List.append_eq_singleton_iff.mp one with ⟨empty, later⟩ | ⟨here, empty⟩
    · rw [s.sent_eq, empty, ih later]
      rfl
    · rw [s.sent_eq, here, Commit.sendsOf_item asks, nothing rest empty]
      rfl

end RowGraph
