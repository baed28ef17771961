import RowGraph.Proofs.Execution.Declared
import RowGraph.Proofs.Hooks.Unheard
import RowGraph.Proofs.Propagation.Absorption
import RowGraph.Proofs.Propagation.Sending
/-!
Requests and the hooks of their fields. Main statement: the calls of a request are those of the
fields that it has invoked, one field after another, and a field that a hook refuses is over with
the message of the hook.
-/

namespace RowGraph

variable {σ : Type}

def Schema.hooksOn (s : Schema) (type field : String) : List Hook :=
  (FieldMap.get? s.hooks type field).getD []

namespace Visit

variable (hooks : String → String → List Hook)

def hookCalls (v : Visit) : List HookCall :=
  match v.place.asked with
  | some a => Hook.calls a.type a.field a.arguments (hooks a.type a.field)
  | none => []

def refusal? (v : Visit) : Option String :=
  v.place.asked.bind fun a => Hook.refusalAmong a.arguments (hooks a.type a.field)

variable {hooks} {v v' : Visit}

theorem hookCalls_place (same : v'.place = v.place) : v'.hookCalls hooks = v.hookCalls hooks := by
  unfold hookCalls
  rw [same]

theorem refusal?_place (same : v'.place = v.place) : v'.refusal? hooks = v.refusal? hooks := by
  unfold refusal?
  rw [same]

end Visit

-- A field that a hook refuses is over with the message of the hook, with nothing inside.
structure Visit.Heeds (hooks : String → String → List Hook) (v : Visit) (inside : List Invocation) :
    Prop where
  idle : ∀ message, v.refusal? hooks = some message → inside = []
  raised : ∀ message, v.refusal? hooks = some message →
    ∃ loc, v.raised = some { message, locations := [loc] }

inductive Invocation.Heeds (hooks : String → String → List Hook) : Invocation → Prop where
  | position {v : Visit} {inside : List Invocation} : v.Heeds hooks inside →
      (∀ i ∈ inside, Heeds hooks i) → Heeds hooks (.position v inside)
  | description {stopped : List ResponseError} {left : Option ResponseError} :
      Heeds hooks (.description stopped left)

-- The calls that have been noted are those of the fields that were invoked.
structure Guards (x : Execution σ) (α : Type) (_ : Path) (r : Run σ) (w : Watch σ α) : Prop where
  calls : w.run.calls =
    r.calls ++ (Invocation.visitsOf w.seen).flatMap (Visit.hookCalls x.schema.hooksOn)
  heeds : ∀ i ∈ w.seen, Invocation.Heeds x.schema.hooksOn i

namespace Guards

variable {x : Execution σ}

theorem close_calls (v : Visit) (w : Watch σ (Option Datum)) :
    (Watched.close v w).run.calls = w.run.calls := by
  unfold Watched.close
  split
  · rfl
  · dsimp only
    split <;> rfl

theorem nothing {α : Type} {p : Path} {r : Run σ} {result : Except Fault α} {run : Run σ}
    (kept : run.calls = r.calls) : Guards x α p r ⟨result, run, []⟩ :=
  ⟨by rw [kept]; exact (List.append_nil _).symm, fun _ absurd => nomatch absurd⟩

theorem close {v : Visit} {r r' : Run σ} {w : Watch σ (Option Datum)} {p : Path}
    (called : r'.calls = r.calls ++ v.hookCalls x.schema.hooksOn)
    (heeds : ∀ message, v.refusal? x.schema.hooksOn = some message → w.seen = [] ∧
      ∃ loc, w.result = .error (.raised { message, locations := [loc] }))
    (inside : Guards x _ p r' w) : Guards x _ p r (Watched.close v w) := by
  obtain ⟨v', closed⟩ := Watched.close_closed v w
  constructor
  · rw [close_calls, inside.calls, called, closed.seen, Invocation.visitsOf_position,
      List.flatMap_cons, Visit.hookCalls_place closed.place, List.append_assoc]
  · rw [closed.seen]
    intro i member
    rw [List.mem_singleton.mp member]
    refine .position ⟨fun message refused => ?_, fun message refused => ?_⟩ inside.heeds
    · exact (heeds message (Visit.refusal?_place closed.place ▸ refused)).1
    · obtain ⟨loc, failed⟩ := (heeds message (Visit.refusal?_place closed.place ▸ refused)).2
      exact ⟨loc, closed.raised _ failed⟩

theorem steps : Steps (Guards x) where
  give _ _ _ _ := nothing rfl
  raise _ _ _ _ _ _ := nothing rfl
  next _ _ _ _ _ _ _ first _ rest := by
    refine ⟨?_, fun i member => ?_⟩
    · rw [rest.calls, first.calls, Invocation.visitsOf_append, List.flatMap_append,
        List.append_assoc]
    · exact (List.mem_append.mp member).elim (first.heeds i) (rest.heeds i)
  stop _ _ _ _ _ _ first _ := ⟨first.calls, first.heeds⟩
  atElement p i nullable body r inside := by
    obtain ⟨v, w, closes, unasked, found⟩ :=
      Watched.element_close (p ++ [.index i]) nullable body r
    have taken : (Exec.takeMark (p ++ [.index i]) r).2.calls =
        r.calls ++ v.hookCalls x.schema.hooksOn := by
      unfold Visit.hookCalls
      rw [unasked, List.append_nil]
      exact (ButCalls.takeMark (p ++ [.index i])).kept r
    have free (message : String) (refused : v.refusal? x.schema.hooksOn = some message) :
        w.seen = [] ∧ ∃ loc, w.result = .error (.raised { message, locations := [loc] }) := by
      unfold Visit.refusal? at refused
      rw [unasked] at refused
      cases refused
    rw [closes]
    rcases found with rfl | ⟨run, seen⟩
    · exact close (p := p) taken free ⟨inside.calls, inside.heeds⟩
    · refine close (p := p) taken free ?_
      exact ⟨by rw [run, seen]; exact (List.append_nil _).symm,
        by rw [seen]; exact fun _ absurd => nomatch absurd⟩

theorem invocation {type : TypeDef} {parent : Outcome} {p : Path} {key : String} {loc : Location}
    {object : Watched.ObjectData σ} {f : FieldDef} {arguments : Arguments} {r : Run σ}
    (objects : Objects (Guards x) (fun _ _ _ => True) object) :
    Guards x _ p r
      (x.watchInvocation type parent (p ++ [.field key]) loc object f arguments r) := by
  let here := p ++ [Segment.field key]
  let hooks := x.schema.hooksOn type.name f.name
  let v : Visit :=
    { place := ⟨here, f.type.nullable, some ⟨type.name, f.name, parent, arguments⟩⟩ }
  have ran : x.declaredField type.name f.name here loc arguments parent r =
      x.guarded hooks type.name f.name here loc arguments parent r :=
    x.declaredField_guarded type.name f.name here loc arguments parent r
  -- Whatever the field comes to, its hooks are all that has been called.
  have called : (x.declaredField type.name f.name here loc arguments parent r).2.calls =
      r.calls ++ v.hookCalls x.schema.hooksOn := by
    rw [ran]
    unfold Execution.guarded
    split
    · rfl
    · exact (x.resolver_unheard here loc arguments parent _).kept _
    · rfl
  have refused (message : String) (refusal : Hook.refusalAmong arguments hooks = some message) :
      (x.declaredField type.name f.name here loc arguments parent r).1 =
        .error { message, locations := [loc] } := by
    rw [ran]
    unfold Execution.guarded
    rw [refusal]
  unfold Execution.watchInvocation
  split
  · rename_i o r' delivered
    rw [delivered] at called refused
    have inside := steps.ofOutcome (c := x.schema.catalog) (fun _ _ _ _ _ _ _ _ => trivial) objects
      loc f.type here o r' fun found _ => fits_of_known (fun _ _ _ _ => trivial) _ found
    refine close (p := p) called (fun message refusal => nomatch refused message refusal) ?_
    exact ⟨inside.calls, inside.heeds⟩
  · rename_i e r' failed
    rw [failed] at called refused
    refine close (p := p) called (fun message refusal => ⟨rfl, loc, ?_⟩) (nothing rfl)
    rw [Except.error.inj (refused message refusal)]

theorem law (x : Execution σ) : Law x (Guards x) fun _ _ _ => True where
  toSteps := steps
  lasting _ _ _ _ _ _ _ _ := trivial
  invocation _ _ _ _ _ _ _ _ _ _ _ objects _ := invocation objects
  description _ _ p head f children r _ _ := by
    obtain ⟨run, stopped, left, seen⟩ := x.watchDescription_record p head f children r
    constructor
    · rw [seen, run, (x.enterDescription_unheard p head f children).kept]
      exact (List.append_nil _).symm
    · rw [seen]
      intro i member
      rw [List.mem_singleton.mp member]
      exact .description

end Guards

theorem Line.heeds {hooks : String → String → List Hook} {seen inside : List Invocation} {v : Visit}
    {around : List Visit} (all : ∀ i ∈ seen, Invocation.Heeds hooks i)
    (line : Line seen v around inside) : v.Heeds hooks inside := by
  have own := line.keeps all fun v inside one => by
    cases one with
    | position _ rest => exact rest
  cases own with
  | position heeds _ => exact heeds

end RowGraph
