import Mathlib.Data.List.Forall2
import RowGraph.Proofs.Propagation.Account
/-!
One thing computed at two positions. Two runs that agree on the store and on what waits below the
two positions stay in agreement: they give the same data, or errors that differ only by where they
are. Main statements: steps in a row, guards and elements keep two computations in agreement.
-/

namespace RowGraph

variable {σ ε α β : Type}

-- A way into an object: it starts with a field.
def Inward (u : Path) : Prop := ∃ key rest, u = .field key :: rest

theorem Inward.ne {u : Path} (inward : Inward u) : u ≠ [] := by
  obtain ⟨key, rest, rfl⟩ := inward
  exact List.cons_ne_nil _ _

theorem Inward.append {u : Path} (inward : Inward u) (v : Path) : Inward (u ++ v) := by
  obtain ⟨key, rest, rfl⟩ := inward
  exact ⟨key, rest ++ v, rfl⟩

-- The two positions of an object, and where the text of the one is found in the other.
structure Pairing where
  here : Path
  there : Path
  move : Location → Location

namespace Pairing

-- The way from the position inwards is the same; errors without a position have none on both sides.
inductive Faces (k : Pairing) : Path → Path → Prop where
  | unplaced : Faces k [] []
  | placed (u : Path) : k.here ++ u ≠ [] → k.there ++ u ≠ [] → Faces k (k.here ++ u) (k.there ++ u)

-- The same error at the other position.
structure Echo (k : Pairing) (e e' : ResponseError) : Prop where
  message : e'.message = e.message
  code : e'.code = e.code
  locations : e'.locations = e.locations.map k.move
  path : k.Faces e.path e'.path

-- The same waits inside of the two objects.
def Level (k : Pairing) (marks marks' : List (Path × Option ResponseError)) : Prop :=
  ∀ u, Inward u →
    Option.Rel (Option.Rel k.Echo) (markAt marks (k.here ++ u)) (markAt marks' (k.there ++ u))

structure Abreast (k : Pairing) (r r' : Run σ) : Prop where
  store : r'.store = r.store
  marks : k.Level r.marks r'.marks

end Pairing

-- What a computation that only reads changes at a position: marks below it, and the errors that it
-- has absorbed there.
structure Adds (p : Path) (r r' : Run σ) (es : List ResponseError) : Prop where
  store : r'.store = r.store
  outside : ∀ q, ¬ Below p q → markAt r'.marks q = markAt r.marks q
  absorbed : r'.absorbed = r.absorbed ++ es
  placed : ∀ e ∈ es, p <+: e.path

namespace Adds

theorem refl (p : Path) (r : Run σ) : Adds p r r [] :=
  ⟨rfl, fun _ _ => rfl, (List.append_nil _).symm, fun _ absurd => nomatch absurd⟩

theorem trans {p : Path} {r r' r'' : Run σ} {es es' : List ResponseError} (first : Adds p r r' es)
    (second : Adds p r' r'' es') : Adds p r r'' (es ++ es') := by
  refine ⟨second.store.trans first.store, fun q outside => ?_, ?_, fun e member => ?_⟩
  · rw [second.outside q outside, first.outside q outside]
  · rw [second.absorbed, first.absorbed, List.append_assoc]
  · exact (List.mem_append.mp member).elim (first.placed e) (second.placed e)

end Adds

namespace Pairing

-- The same value on both sides, or errors that go together.
inductive Agrees (E : ε → ε → Prop) : Except ε α → Except ε α → Prop where
  | ok (a : α) : Agrees E (.ok a) (.ok a)
  | error {e e' : ε} : E e e' → Agrees E (.error e) (.error e')

-- What two computations have come to.
structure Meets (k : Pairing) (E : ε → ε → Prop) (r r' : Run σ) (w w' : Except ε α × Run σ) :
    Prop where
  result : Agrees E w.1 w'.1
  marks : k.Level w.2.marks w'.2.marks
  errors : ∃ es es', Adds k.here r w.2 es ∧ Adds k.there r' w'.2 es' ∧ List.Forall₂ k.Echo es es'

def Parallel (k : Pairing) (E : ε → ε → Prop) (x x' : ExceptT ε (StateM (Run σ)) α) : Prop :=
  ∀ r r', k.Abreast r r' → k.Meets E r r' (x r) (x' r')

variable {k : Pairing} {E : ε → ε → Prop}

theorem Meets.idle {r r' : Run σ} (abreast : k.Abreast r r') {result result' : Except ε α}
    (agrees : Agrees E result result') : k.Meets E r r' (result, r) (result', r') :=
  ⟨agrees, abreast.marks, [], [], .refl _ r, .refl _ r', .nil⟩

theorem Meets.abreast {r r' : Run σ} {w w' : Except ε α × Run σ} (abreast : k.Abreast r r')
    (meets : k.Meets E r r' w w') : k.Abreast w.2 w'.2 := by
  obtain ⟨es, es', here, there, _⟩ := meets.errors
  exact ⟨there.store.trans (abreast.store.trans here.store.symm), meets.marks⟩

theorem Meets.trans {r r' : Run σ} {w w' : Except ε α × Run σ} {v v' : Except ε β × Run σ}
    (first : k.Meets E r r' w w') (second : k.Meets E w.2 w'.2 v v') : k.Meets E r r' v v' := by
  obtain ⟨es, es', here, there, both⟩ := first.errors
  obtain ⟨fs, fs', here', there', both'⟩ := second.errors
  exact ⟨second.result, second.marks, _, _, here.trans here', there.trans there',
    List.rel_append both both'⟩

namespace Parallel

theorem pure (a : α) : k.Parallel (σ := σ) E (Pure.pure a) (Pure.pure a) :=
  fun _ _ abreast => .idle abreast (.ok a)

theorem throw {e e' : ε} (same : E e e') :
    k.Parallel (σ := σ) E (MonadExcept.throw e : ExceptT ε (StateM (Run σ)) α)
      (MonadExcept.throw e') :=
  fun _ _ abreast => .idle abreast (.error same)

theorem lift {y y' : Except ε α} (same : Agrees E y y') :
    k.Parallel (σ := σ) E (liftM y) (liftM y') := by
  intro r r' abreast
  cases same with
  | ok a => exact .idle abreast (.ok a)
  | error same => exact .idle abreast (.error same)

theorem bind {x x' : ExceptT ε (StateM (Run σ)) α} {f f' : α → ExceptT ε (StateM (Run σ)) β}
    (first : k.Parallel E x x') (rest : ∀ a, k.Parallel E (f a) (f' a)) :
    k.Parallel E (x >>= f) (x' >>= f') := by
  intro r r' abreast
  have meets := first r r' abreast
  rw [bind_apply, bind_apply]
  rcases ran : x r with ⟨result, r₁⟩
  rcases ran' : x' r' with ⟨result', r₁'⟩
  rw [ran, ran'] at meets
  cases meets.result with
  | ok a => exact meets.trans (rest a r₁ r₁' (meets.abreast abreast))
  | error same => exact ⟨.error same, meets.marks, meets.errors⟩

theorem map {x x' : ExceptT ε (StateM (Run σ)) α} (f : α → β) (inside : k.Parallel E x x') :
    k.Parallel E (f <$> x) (f <$> x') := by
  rw [map_eq_pure_bind, map_eq_pure_bind]
  exact inside.bind fun a => pure (f a)

-- Errors may be given another form on both sides.
theorem adapt {ε' : Type} {E' : ε' → ε' → Prop} {f f' : ε → ε'}
    (forms : ∀ e e', E e e' → E' (f e) (f' e')) {x x' : ExceptT ε (StateM (Run σ)) α}
    (inside : k.Parallel E x x') :
    k.Parallel E' (ExceptT.adapt f x) (ExceptT.adapt f' x') := by
  intro r r' abreast
  obtain ⟨result, marks, errors⟩ := inside r r' abreast
  rw [adapt_apply, adapt_apply]
  refine ⟨?_, marks, errors⟩
  generalize (x r).1 = given at result ⊢
  generalize (x' r').1 = given' at result ⊢
  cases result with
  | ok a => exact .ok a
  | error same => exact .error (forms _ _ same)

end Parallel

-- A way inwards that leads to a position other than the root, from both positions.
structure Enters (k : Pairing) (u : Path) : Prop where
  here : k.here ++ u ≠ []
  there : k.there ++ u ≠ []

theorem Inward.enters {u : Path} (inward : Inward u) : k.Enters u :=
  ⟨by simp [inward.ne], by simp [inward.ne]⟩

-- An error with a position is at the two positions or below them.
theorem Echo.located_path {u : Path} {e e' : ResponseError} (enters : k.Enters u)
    (echo : k.Echo e e') : ∃ v, k.Enters v ∧ (Exec.located (k.here ++ u) e).path = k.here ++ v ∧
      (Exec.located (k.there ++ u) e').path = k.there ++ v := by
  have faces := echo.path
  rw [Exec.located_path, Exec.located_path]
  generalize e.path = p at faces ⊢
  generalize e'.path = p' at faces ⊢
  cases faces with
  | unplaced => exact ⟨u, enters, rfl, rfl⟩
  | placed v here there => exact ⟨v, ⟨here, there⟩, if_neg here, if_neg there⟩

theorem Echo.located {u : Path} {e e' : ResponseError} (enters : k.Enters u) (echo : k.Echo e e') :
    k.Echo (Exec.located (k.here ++ u) e) (Exec.located (k.there ++ u) e') := by
  have same (p : Path) (e : ResponseError) : (Exec.located p e).message = e.message ∧
      (Exec.located p e).code = e.code ∧ (Exec.located p e).locations = e.locations := by
    unfold Exec.located
    split <;> exact ⟨rfl, rfl, rfl⟩
  obtain ⟨message, code, locations⟩ := same (k.here ++ u) e
  obtain ⟨message', code', locations'⟩ := same (k.there ++ u) e'
  obtain ⟨v, inner, path, path'⟩ := echo.located_path enters
  refine ⟨?_, ?_, ?_, ?_⟩
  · rw [message, message', echo.message]
  · rw [code, code', echo.code]
  · rw [locations, locations', echo.locations]
  · rw [path, path']
    exact .placed v inner.here inner.there

theorem Meets.setMark {r r' : Run σ} (abreast : k.Abreast r r') {u : Path} (inward : Inward u)
    {e e' : Option ResponseError} (same : Option.Rel k.Echo e e') (a : α) :
    k.Meets E r r' (.ok a, Exec.setMark (k.here ++ u) e r)
      (.ok a, Exec.setMark (k.there ++ u) e' r') := by
  have adds (p : Path) (e : Option ResponseError) (r : Run σ) :
      Adds p r (Exec.setMark (p ++ u) e r) [] := by
    refine ⟨rfl, fun q outside => ?_, (List.append_nil _).symm, fun _ absurd => nomatch absurd⟩
    rw [Exec.markAt_setMark, if_neg]
    rintro rfl
    exact outside (.append p inward.ne)
  refine ⟨.ok a, fun v deeper => ?_, [], [], adds _ e r, adds _ e' r', .nil⟩
  rw [Exec.markAt_setMark, Exec.markAt_setMark]
  by_cases here : v = u
  · rw [here, if_pos rfl, if_pos rfl]
    exact .some same
  · rw [if_neg fun same => here (List.append_cancel_left same),
      if_neg fun same => here (List.append_cancel_left same)]
    exact abreast.marks v deeper

-- What is taken from both sides is the same, and no longer waits on either.
theorem Meets.takeMark {r r' : Run σ} (abreast : k.Abreast r r') {u : Path} (inward : Inward u) :
    Option.Rel (Option.Rel k.Echo) (Exec.takeMark (k.here ++ u) r).1
      (Exec.takeMark (k.there ++ u) r').1 ∧
    ∀ a : α, k.Meets E r r' (.ok a, (Exec.takeMark (k.here ++ u) r).2)
      (.ok a, (Exec.takeMark (k.there ++ u) r').2) := by
  have adds (p : Path) (r : Run σ) : Adds p r (Exec.takeMark (p ++ u) r).2 [] := by
    obtain ⟨_, store, absorbed, _, marks⟩ := Exec.takeMark_eq (p ++ u) r
    refine ⟨store, fun q outside => ?_, ?_, fun _ absurd => nomatch absurd⟩
    · rw [marks, if_neg]
      rintro rfl
      exact outside (.append p inward.ne)
    · rw [absorbed, List.append_nil]
  obtain ⟨found, _, _, _, marks⟩ := Exec.takeMark_eq (k.here ++ u) r
  obtain ⟨found', _, _, _, marks'⟩ := Exec.takeMark_eq (k.there ++ u) r'
  refine ⟨?_, fun a => ⟨.ok a, fun v deeper => ?_, [], [], adds _ r, adds _ r', .nil⟩⟩
  · rw [found, found']
    exact abreast.marks u inward
  · rw [marks, marks']
    by_cases here : v = u
    · rw [here, if_pos rfl, if_pos rfl]
      exact .none
    · rw [if_neg fun same => here (List.append_cancel_left same),
        if_neg fun same => here (List.append_cancel_left same)]
      exact abreast.marks v deeper

namespace Parallel

theorem fail {u : Path} (enters : k.Enters u) (loc : Location) (message : String) :
    k.Parallel (σ := σ) k.Echo (Complete.fail (k.here ++ u) loc message : Exec σ α)
      (Complete.fail (k.there ++ u) (k.move loc) message) :=
  throw ⟨rfl, rfl, rfl, .placed u enters.here enters.there⟩

theorem absorb {u : Path} (enters : k.Enters u) (nullable : Bool) {e e' : ResponseError}
    (echo : k.Echo e e') :
    k.Parallel (σ := σ) k.Echo (Exec.absorb (k.here ++ u) nullable e)
      (Exec.absorb (k.there ++ u) nullable e') := by
  intro r r' abreast
  cases nullable with
  | false => exact .idle abreast (.error (echo.located enters))
  | true =>
    obtain ⟨v, _, path, path'⟩ := echo.located_path enters
    refine ⟨.ok none, abreast.marks, [_], [_], ?_, ?_, .cons (echo.located enters) .nil⟩
    · refine ⟨rfl, fun _ _ => rfl, rfl, fun e member => ?_⟩
      rw [List.mem_singleton.mp member, path]
      exact List.prefix_append _ _
    · refine ⟨rfl, fun _ _ => rfl, rfl, fun e member => ?_⟩
      rw [List.mem_singleton.mp member, path']
      exact List.prefix_append _ _

theorem guard {u : Path} (enters : k.Enters u) (nullable : Bool)
    {x x' : Exec σ (Option Datum)} (inside : k.Parallel k.Echo x x') :
    k.Parallel k.Echo (Exec.guard (k.here ++ u) nullable x)
      (Exec.guard (k.there ++ u) nullable x') := by
  intro r r' abreast
  have meets := inside r r' abreast
  unfold Exec.guard
  generalize x r = w at meets ⊢
  generalize x' r' = w' at meets ⊢
  obtain ⟨result, r₁⟩ := w
  obtain ⟨result', r₁'⟩ := w'
  cases meets.result with
  | ok d => exact meets
  | error echo => exact meets.trans (absorb enters nullable echo r₁ r₁' (meets.abreast abreast))

-- An element finds the same mark on both sides.
theorem element {u : Path} (inward : Inward u) (nullable : Bool) {x x' : Exec σ (Option Datum)}
    (inside : k.Parallel k.Echo x x') :
    k.Parallel k.Echo (Exec.element (k.here ++ u) nullable x)
      (Exec.element (k.there ++ u) nullable x') := by
  intro r r' abreast
  have enters : k.Enters u := Inward.enters inward
  obtain ⟨same, taken⟩ := Meets.takeMark (E := k.Echo) (α := Unit) abreast inward
  have meets := taken ()
  have later := meets.abreast abreast
  unfold Exec.element
  rw [bind_apply, bind_apply, lift_apply, lift_apply]
  refine meets.trans ?_
  generalize Exec.takeMark (k.here ++ u) r = w at same later ⊢
  generalize Exec.takeMark (k.there ++ u) r' = w' at same later ⊢
  obtain ⟨mark, r₁⟩ := w
  obtain ⟨mark', r₁'⟩ := w'
  cases same with
  | none => exact guard enters nullable inside r₁ r₁' later
  | some same =>
    cases same with
    | some echo => exact absorb enters nullable echo r₁ r₁' later
    | none =>
      cases nullable with
      | true => exact pure none r₁ r₁' later
      | false => exact absorb enters false ⟨rfl, rfl, rfl, .unplaced⟩ r₁ r₁' later

theorem elements {u : Path} (inward : Inward u) (nullable : Bool)
    {body body' : Path → α → Exec σ (Option Datum)}
    (inside : ∀ v a, Inward v → k.Parallel k.Echo (body (k.here ++ v) a) (body' (k.there ++ v) a))
    (as : List α) (index : Nat) :
    k.Parallel k.Echo (Complete.elements nullable (k.here ++ u) body index as)
      (Complete.elements nullable (k.there ++ u) body' index as) := by
  induction as generalizing index with
  | nil => exact pure []
  | cons a rest ih =>
    unfold Complete.elements
    simp only [List.append_assoc]
    have deeper := inward.append [.index index]
    refine (element deeper nullable (inside _ a deeper)).bind fun d => ?_
    exact (ih (index + 1)).bind fun ds => pure _

theorem absent {u : Path} (enters : k.Enters u) (nonNull : Bool) (loc : Location) :
    k.Parallel (σ := σ) k.Echo (Complete.absent nonNull (k.here ++ u) loc)
      (Complete.absent nonNull (k.there ++ u) (k.move loc)) := by
  cases nonNull with
  | true => exact fail enters loc _
  | false => exact pure none

theorem enumValue {u : Path} (enters : k.Enters u) (t : TypeDef) (values : List String)
    (loc : Location) (o : Outcome) :
    k.Parallel (σ := σ) k.Echo (Complete.enumValue t values (k.here ++ u) loc o)
      (Complete.enumValue t values (k.there ++ u) (k.move loc) o) := by
  unfold Complete.enumValue
  split
  · split
    · exact pure _
    · exact fail enters loc _
  · split
    · exact pure _
    · exact fail enters loc _
  · exact fail enters loc _

variable {object object' : Complete.ObjectData σ}

theorem value {t : TypeDef} {u : Path} (objects : ∀ o,
      k.Parallel k.Echo (object t o (k.here ++ u)) (object' t o (k.there ++ u)))
    (enters : k.Enters u) (loc : Location) (o : Outcome) :
    k.Parallel k.Echo (Complete.value t object (k.here ++ u) loc o)
      (Complete.value t object' (k.there ++ u) (k.move loc) o) := by
  unfold Complete.value
  split
  · exact objects o
  · exact enumValue enters t _ loc o
  · split
    · exact pure _
    · exact fail enters loc _

theorem nothing (c : Catalog) (type : TypeExpr) (loc : Location) {u : Path} (enters : k.Enters u) :
    k.Parallel k.Echo (Complete.outcome c object loc type (k.here ++ u) none)
      (Complete.outcome c object' (k.move loc) type (k.there ++ u) none) := by
  cases type with
  | named name nonNull => exact absent enters nonNull loc
  | list item nonNull => exact absent enters nonNull loc

-- What a named type makes of an outcome.
theorem named {c : Catalog} {name : String} {nonNull : Bool} {u : Path} (enters : k.Enters u)
    (objects : ∀ t o, c.type? name = some t →
      k.Parallel k.Echo (object t o (k.here ++ u)) (object' t o (k.there ++ u)))
    (loc : Location) (o : Option Outcome) :
    k.Parallel k.Echo (Complete.outcome c object loc (.named name nonNull) (k.here ++ u) o)
      (Complete.outcome c object' (k.move loc) (.named name nonNull) (k.there ++ u) o) := by
  cases o with
  | none => exact nothing c _ loc enters
  | some o =>
    unfold Complete.outcome
    split
    · rename_i t known
      exact map some (value (fun o => objects t o known) enters loc o)
    · exact pure none

-- What a type expression makes of an outcome whose objects show the same on both sides.
theorem outcome {c : Catalog} {type : TypeExpr} (objects : ∀ t o v, c.type? type.name = some t →
      Inward v → k.Parallel k.Echo (object t o (k.here ++ v)) (object' t o (k.there ++ v)))
    (loc : Location) {u : Path} (inward : Inward u) (o : Option Outcome) :
    k.Parallel k.Echo (Complete.outcome c object loc type (k.here ++ u) o)
      (Complete.outcome c object' (k.move loc) type (k.there ++ u) o) := by
  induction type generalizing u o with
  | named name nonNull =>
    exact named (Inward.enters inward) (fun t o known => objects t o u known inward) loc o
  | list item nonNull ih =>
    cases o with
    | none => exact nothing c _ loc (Inward.enters inward)
    | some o =>
      have each (items : List Outcome) : k.Parallel k.Echo
          (Complete.elements item.nullable (k.here ++ u)
            (fun here o => Complete.outcome c object loc item here (some o)) 0 items)
          (Complete.elements item.nullable (k.there ++ u)
            (fun here o => Complete.outcome c object' (k.move loc) item here (some o)) 0 items) :=
        elements inward item.nullable (fun v o inward => ih objects inward (some o)) items 0
      unfold Complete.outcome
      split
      · exact (each _).map _
      · exact (each _).map _
      · exact fail (Inward.enters inward) loc _

end Parallel

end Pairing

end RowGraph
