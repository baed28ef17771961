import RowGraph.Proofs.Execution.Inquiry
import RowGraph.Proofs.Mutation.Transaction
/-!
Two computations that do the same, one of them without marks. From states with the same store they
come to the same result and the same store and note the same errors and hook calls, as long as no mark
waits where the first one looks for it. Main statements: steps in a row, guards and elements keep two
computations together, and so do the values that a declared type asks for.
-/

namespace RowGraph

variable {σ ε α β : Type}

-- What is noted in the course of a computation.
structure Notes where
  absorbed : List ResponseError := []
  caught : List ResponseError := []
  calls : List HookCall := []

namespace Notes

def append (n n' : Notes) : Notes :=
  ⟨n.absorbed ++ n'.absorbed, n.caught ++ n'.caught, n.calls ++ n'.calls⟩

instance : Append Notes := ⟨append⟩

end Notes

structure Noted (n : Notes) (r r' : Run σ) : Prop where
  absorbed : r'.absorbed = r.absorbed ++ n.absorbed
  caught : r'.caught = r.caught ++ n.caught
  calls : r'.calls = r.calls ++ n.calls

namespace Noted

-- The store and the marks are no notes.
theorem still (r : Run σ) (store : σ) (marks : List (Path × Option ResponseError)) :
    Noted {} r { r with store, marks } :=
  ⟨(List.append_nil _).symm, (List.append_nil _).symm, (List.append_nil _).symm⟩

theorem refl (r : Run σ) : Noted {} r r := still r r.store r.marks

theorem trans {n n' : Notes} {r r' r'' : Run σ} (first : Noted n r r') (second : Noted n' r' r'') :
    Noted (n ++ n') r r'' := by
  refine ⟨?_, ?_, ?_⟩
  · rw [second.absorbed, first.absorbed, List.append_assoc]
    rfl
  · rw [second.caught, first.caught, List.append_assoc]
    rfl
  · rw [second.calls, first.calls, List.append_assoc]
    rfl

theorem unique {n n' : Notes} {r r' : Run σ} (noted : Noted n r r') (noted' : Noted n' r r') :
    n = n' := by
  obtain ⟨absorbed, caught, calls⟩ := n
  obtain ⟨absorbed', caught', calls'⟩ := n'
  obtain rfl := List.append_cancel_left (noted.absorbed.symm.trans noted'.absorbed)
  obtain rfl := List.append_cancel_left (noted.caught.symm.trans noted'.caught)
  obtain rfl := List.append_cancel_left (noted.calls.symm.trans noted'.calls)
  rfl

end Noted

-- A state next to one without marks, with none of its own at some positions.
structure Level (needs : Path → Prop) (r r' : Run σ) : Prop where
  store : r'.store = r.store
  bare : r'.marks = []
  free : ∀ q, needs q → markAt r.marks q = none

-- What two computations have come to. Errors are stopped without a guard in a description only.
structure Mirrored (described : Prop) (r r' : Run σ) (w w' : Except ε α × Run σ) : Prop where
  result : w'.1 = w.1
  store : w'.2.store = w.2.store
  bare : w'.2.marks = []
  notes : ∃ n, Noted n r w.2 ∧ Noted n r' w'.2 ∧ (described ∨ n.caught = [])

-- The marks of one state wait in another one.
def Keeps (r s : Run σ) : Prop := ∀ q, markAt s.marks q = markAt r.marks q

def Mirrors (described : Prop) (needs : Path → Prop) (x y : ExceptT ε (StateM (Run σ)) α) : Prop :=
  ∀ r r', Level needs r r' → Mirrored described r r' (x r) (y r') ∧ Keeps r (x r).2

variable {described : Prop} {needs : Path → Prop}

theorem Mirrored.imp {weaker : Prop} {r r' : Run σ} {w w' : Except ε α × Run σ}
    (implied : described → weaker) (mirrored : Mirrored described r r' w w') :
    Mirrored weaker r r' w w' := by
  obtain ⟨n, here, there, caught⟩ := mirrored.notes
  exact ⟨mirrored.result, mirrored.store, mirrored.bare, n, here, there, caught.imp implied id⟩

namespace Level

variable {r r' : Run σ}

theorem mono {fewer : Path → Prop} (fewer_needs : ∀ q, fewer q → needs q)
    (level : Level needs r r') : Level fewer r r' :=
  ⟨level.store, level.bare, fun q needed => level.free q (fewer_needs q needed)⟩

theorem keep {w w' : Except ε α × Run σ} (level : Level needs r r') (mirrored : Mirrored described r r' w w')
    (keeps : Keeps r w.2) : Level needs w.2 w'.2 :=
  ⟨mirrored.store, mirrored.bare, fun q needed => (keeps q).trans (level.free q needed)⟩

end Level

namespace Mirrored

variable {r r' : Run σ}

theorem idle (level : Level needs r r') (result : Except ε α) :
    Mirrored described r r' (result, r) (result, r') :=
  ⟨rfl, level.store, level.bare, {}, .refl r, .refl r', .inr rfl⟩

theorem trans {w w' : Except ε α × Run σ} {v v' : Except ε β × Run σ} (first : Mirrored described r r' w w')
    (second : Mirrored described w.2 w'.2 v v') : Mirrored described r r' v v' := by
  obtain ⟨n, here, there, caught⟩ := first.notes
  obtain ⟨n', here', there', caught'⟩ := second.notes
  refine ⟨second.result, second.store, second.bare, n ++ n', here.trans here', there.trans there', ?_⟩
  rcases caught with described | none
  · exact .inl described
  · exact caught'.imp id fun none' => List.append_eq_nil_iff.mpr ⟨none, none'⟩

-- The same is made of both results.
theorem map_result {ε' : Type} {w w' : Except ε α × Run σ} (f : Except ε α → Except ε' β)
    (mirrored : Mirrored described r r' w w') : Mirrored described r r' (f w.1, w.2) (f w'.1, w'.2) :=
  ⟨congrArg f mirrored.result, mirrored.store, mirrored.bare, mirrored.notes⟩

-- If both have given something, both go on with it.
theorem bind {x y : ExceptT ε (StateM (Run σ)) α} {f g : α → ExceptT ε (StateM (Run σ)) β}
    (first : Mirrored described r r' (x r) (y r'))
    (rest : ∀ a s s', x r = (.ok a, s) → y r' = (.ok a, s') →
      Mirrored described s s' (f a s) (g a s')) :
    Mirrored described r r' ((x >>= f) r) ((y >>= g) r') := by
  rw [bind_apply, bind_apply]
  rcases ran : x r with ⟨result, s⟩
  rcases ran' : y r' with ⟨result', s'⟩
  rw [ran, ran'] at first
  obtain rfl : result' = result := first.result
  cases result' with
  | error e => exact ⟨rfl, first.store, first.bare, first.notes⟩
  | ok a => exact first.trans (rest a s s' ran ran')

-- Where nothing was noted before, everything that was noted is the same.
theorem same {store : σ} {w w' : Except ε α × Run σ}
    (mirrored : Mirrored described { store } { store } w w') :
    w' = (w.1, { w.2 with marks := [] }) := by
  obtain ⟨n, here, there, _⟩ := mirrored.notes
  obtain ⟨result, s⟩ := w
  obtain ⟨result', store', marks', absorbed', caught', calls'⟩ := w'
  obtain rfl : result' = result := mirrored.result
  obtain rfl : store' = s.store := mirrored.store
  obtain rfl : marks' = [] := mirrored.bare
  obtain rfl : absorbed' = s.absorbed := there.absorbed.trans here.absorbed.symm
  obtain rfl : caught' = s.caught := there.caught.trans here.caught.symm
  obtain rfl : calls' = s.calls := there.calls.trans here.calls.symm
  rfl

end Mirrored

namespace Mirrors

theorem mono {more : Path → Prop} {x y : ExceptT ε (StateM (Run σ)) α}
    (needs_more : ∀ q, needs q → more q) (mirrors : Mirrors described needs x y) : Mirrors described more x y :=
  fun r r' level => mirrors r r' (level.mono needs_more)

theorem pure (a : α) : Mirrors (σ := σ) (ε := ε) described needs (Pure.pure a) (Pure.pure a) :=
  fun _ _ level => ⟨.idle level _, fun _ => rfl⟩

theorem throw (e : ε) : Mirrors (σ := σ) described needs (MonadExcept.throw e : ExceptT ε (StateM (Run σ)) α)
    (MonadExcept.throw e) :=
  fun _ _ level => ⟨.idle level _, fun _ => rfl⟩

theorem lift (y : Except ε α) :
    Mirrors described needs (liftM y : ExceptT ε (StateM (Run σ)) α) (liftM y) := by
  cases y with
  | ok a => exact pure a
  | error e => exact throw e

theorem bind {x y : ExceptT ε (StateM (Run σ)) α} {f g : α → ExceptT ε (StateM (Run σ)) β}
    (first : Mirrors described needs x y) (rest : ∀ a, Mirrors described needs (f a) (g a)) :
    Mirrors described needs (x >>= f) (y >>= g) := by
  intro r r' level
  obtain ⟨mirrored, keeps⟩ := first r r' level
  have later := level.keep mirrored keeps
  constructor
  · refine mirrored.bind fun a s s' ran ran' => ?_
    rw [ran, ran'] at later
    exact (rest a s s' later).1
  · rw [bind_apply]
    rcases ran : x r with ⟨_ | a, s⟩
    · rw [ran] at keeps
      exact keeps
    · rw [ran] at later keeps
      exact fun q => ((rest a s _ later).2 q).trans (keeps q)

theorem map {x y : ExceptT ε (StateM (Run σ)) α} (f : α → β) (inside : Mirrors described needs x y) :
    Mirrors described needs (f <$> x) (f <$> y) := by
  rw [map_eq_pure_bind, map_eq_pure_bind]
  exact inside.bind fun a => pure (f a)

theorem adapt {ε' : Type} (f : ε → ε') {x y : ExceptT ε (StateM (Run σ)) α}
    (inside : Mirrors described needs x y) : Mirrors described needs (ExceptT.adapt f x) (ExceptT.adapt f y) := by
  intro r r' level
  obtain ⟨mirrored, keeps⟩ := inside r r' level
  rw [adapt_apply, adapt_apply]
  exact ⟨mirrored.map_result (Except.mapError f), keeps⟩

-- Notes are made on both sides alike.
theorem note (f : Run σ → Run σ) (n : Notes) (caught : described ∨ n.caught = [])
    (notes : ∀ r, Noted n r (f r) ∧ (f r).store = r.store ∧ (f r).marks = r.marks) (a : α) :
    Mirrors (ε := ε) described needs (fun r => (Except.ok a, f r)) (fun r => (.ok a, f r)) := by
  intro r r' level
  obtain ⟨here, store, marks⟩ := notes r
  obtain ⟨there, store', marks'⟩ := notes r'
  refine ⟨⟨rfl, ?_, marks'.trans level.bare, n, here, there, caught⟩, fun q => by rw [marks]⟩
  exact store'.trans (level.store.trans store.symm)

theorem absorb (path : Path) (nullable : Bool) (e : ResponseError) :
    Mirrors (σ := σ) described needs (Exec.absorb path nullable e) (Exec.absorb path nullable e) := by
  cases nullable with
  | false => exact throw _
  | true =>
    exact note (fun r => { r with absorbed := r.absorbed ++ [Exec.located path e] })
      { absorbed := [Exec.located path e] } (.inr rfl)
      (fun r => ⟨⟨rfl, (List.append_nil _).symm, (List.append_nil _).symm⟩, rfl, rfl⟩) none

end Mirrors

-- What is done about an error, if there is one.
def Exec.rescue (x : Exec σ (Option Datum)) (f : ResponseError → Exec σ (Option Datum)) :
    Exec σ (Option Datum) := fun r =>
  match x r with
  | (.ok d, r') => (.ok d, r')
  | (.error e, r') => f e r'

theorem Mirrored.rescue {x y : Exec σ (Option Datum)} {f : ResponseError → Exec σ (Option Datum)}
    {r r' : Run σ} (inside : Mirrored described r r' (x r) (y r'))
    (errors : ∀ e, Mirrors described (fun _ => False) (f e) (f e)) :
    Mirrored described r r' (Exec.rescue x f r) (Exec.rescue y f r') ∧ Keeps (x r).2 (Exec.rescue x f r).2 := by
  unfold Exec.rescue
  rcases ran : x r with ⟨result, s⟩
  rcases ran' : y r' with ⟨result', s'⟩
  rw [ran, ran'] at inside
  obtain rfl : result' = result := inside.result
  cases result' with
  | ok d => exact ⟨inside, fun _ => rfl⟩
  | error e =>
    obtain ⟨mirrored, keeps⟩ :=
      errors e s s' ⟨inside.store, inside.bare, fun _ absurd => absurd.elim⟩
    exact ⟨inside.trans mirrored, keeps⟩

theorem Mirrored.guard {x y : Exec σ (Option Datum)} {r r' : Run σ} (path : Path) (nullable : Bool)
    (inside : Mirrored described r r' (x r) (y r')) :
    Mirrored described r r' (Exec.guard path nullable x r) (Exec.guard path nullable y r') ∧
      Keeps (x r).2 (Exec.guard path nullable x r).2 :=
  inside.rescue (Mirrors.absorb path nullable)

namespace Mirrors

theorem rescue {x y : Exec σ (Option Datum)} {f : ResponseError → Exec σ (Option Datum)}
    (inside : Mirrors described needs x y) (errors : ∀ e, Mirrors described (fun _ => False) (f e) (f e)) :
    Mirrors described needs (Exec.rescue x f) (Exec.rescue y f) := by
  intro r r' level
  obtain ⟨mirrored, keeps⟩ := inside r r' level
  obtain ⟨rescued, later⟩ := mirrored.rescue errors
  exact ⟨rescued, fun q => (later q).trans (keeps q)⟩

theorem guard (path : Path) (nullable : Bool) {x y : Exec σ (Option Datum)}
    (inside : Mirrors described needs x y) :
    Mirrors described needs (Exec.guard path nullable x) (Exec.guard path nullable y) :=
  inside.rescue (absorb path nullable)

theorem catching (here : described) (nullable : Bool) {x y : Exec σ (Option Datum)}
    (inside : Mirrors described needs x y) :
    Mirrors described needs (Exec.catching nullable x) (Exec.catching nullable y) := by
  cases nullable with
  | false => exact inside.rescue throw
  | true =>
    refine inside.rescue (f := fun e r => (.ok none, { r with caught := r.caught ++ [e] })) fun e => ?_
    exact note (fun r => { r with caught := r.caught ++ [e] }) { caught := [e] } (.inl here)
      (fun r => ⟨⟨(List.append_nil _).symm, rfl, (List.append_nil _).symm⟩, rfl, rfl⟩) none

theorem relocated (path : Path) {x y : Exec σ α} (inside : Mirrors described needs x y) :
    Mirrors described needs (Exec.relocated path x) (Exec.relocated path y) :=
  inside.adapt _

end Mirrors

theorem takeMark_free {path : Path} {r : Run σ} (free : markAt r.marks path = none) :
    Exec.takeMark path r = (none, r) := by
  unfold Exec.takeMark
  rw [Option.map_eq_none_iff.mp free]

namespace Mirrors

-- An element that no mark waits for is a position like any other.
theorem element {path : Path} (here : needs path) (nullable : Bool) {x y : Exec σ (Option Datum)}
    (inside : Mirrors described needs x y) :
    Mirrors described needs (Exec.element path nullable x) (Exec.element path nullable y) := by
  intro r r' level
  have bare : markAt r'.marks path = none := by
    rw [level.bare]
    rfl
  unfold Exec.element
  rw [bind_apply, bind_apply, lift_apply, lift_apply, takeMark_free (level.free path here),
    takeMark_free bare]
  exact guard path nullable inside r r' level

theorem elements {path : Path} (here : ∀ i, needs (path ++ [.index i])) (nullable : Bool)
    {body body' : Path → α → Exec σ (Option Datum)}
    (inside : ∀ i a, Mirrors described needs (body (path ++ [.index i]) a) (body' (path ++ [.index i]) a))
    (as : List α) (index : Nat) :
    Mirrors described needs (Complete.elements nullable path body index as)
      (Complete.elements nullable path body' index as) := by
  induction as generalizing index with
  | nil => exact pure []
  | cons a rest ih =>
    apply bind
    · exact element (here index) nullable (inside index a)
    · exact fun d => (ih (index + 1)).bind fun ds => pure _

theorem absent (nonNull : Bool) (path : Path) (loc : Location) :
    Mirrors (σ := σ) described needs (Complete.absent nonNull path loc) (Complete.absent nonNull path loc) := by
  cases nonNull with
  | true => exact throw _
  | false => exact pure none

theorem enumValue (t : TypeDef) (values : List String) (path : Path) (loc : Location) (o : Outcome) :
    Mirrors (σ := σ) described needs (Complete.enumValue t values path loc o)
      (Complete.enumValue t values path loc o) := by
  unfold Complete.enumValue
  split
  · split
    · exact pure _
    · exact throw _
  · split
    · exact pure _
    · exact throw _
  · exact throw _

variable {object object' : Complete.ObjectData σ}

theorem value {t : TypeDef} {path : Path} {o : Outcome}
    (shown : Mirrors described needs (object t o path) (object' t o path)) (loc : Location) :
    Mirrors described needs (Complete.value t object path loc o) (Complete.value t object' path loc o) := by
  unfold Complete.value
  split
  · exact shown
  · exact enumValue t _ path loc o
  · split
    · exact pure _
    · exact throw _

theorem nothing (object object' : Complete.ObjectData σ) (c : Catalog) (loc : Location) (type : TypeExpr) (path : Path) :
    Mirrors described needs (Complete.outcome c object loc type path none)
      (Complete.outcome c object' loc type path none) := by
  cases type <;> exact absent _ path loc

-- What a type expression makes of an outcome, if objects are shown alike.
theorem outcome {c : Catalog} {type : TypeExpr}
    (objects : ∀ t o path, c.type? type.name = some t →
      Mirrors described (Below path) (object t o path) (object' t o path))
    (loc : Location) (path : Path) (o : Option Outcome) :
    Mirrors described (Below path) (Complete.outcome c object loc type path o)
      (Complete.outcome c object' loc type path o) := by
  induction type generalizing path o with
  | named name nonNull =>
    cases o with
    | none => exact nothing object object' c loc _ path
    | some o =>
      unfold Complete.outcome
      cases known : c.type? name with
      | none => exact pure none
      | some t => exact (value (objects t o path known) loc).map some
  | list item nonNull ih =>
    cases o with
    | none => exact nothing object object' c loc _ path
    | some o =>
      have each (items : List Outcome) : Mirrors described (Below path)
          (Complete.elements item.nullable path
            (fun here o => Complete.outcome c object loc item here (some o)) 0 items)
          (Complete.elements item.nullable path
            (fun here o => Complete.outcome c object' loc item here (some o)) 0 items) := by
        apply elements (fun i => .snoc path (.index i))
        intro i o
        refine (ih objects (path ++ [.index i]) (some o)).mono fun q below => ?_
        exact (Below.snoc path (.index i)).trans below
      unfold Complete.outcome
      split
      · exact (each _).map _
      · exact (each _).map _
      · exact throw _

end Mirrors

end RowGraph
