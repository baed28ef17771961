import RowGraph.Proofs.Mutation.Queries
import RowGraph.Proofs.Placement.Waiting
import RowGraph.Proofs.Propagation.Within
import RowGraph.Proofs.Reference.Selections
/-!
What a field of a query leaves alone. Main statement: whatever the value of a field comes to, the
store and the errors of descriptions are as they were, and all of its errors are at its position or
inside of it, with marks and without them.
-/

namespace RowGraph

variable {σ α : Type}

structure Contained (p : Path) (r : Run σ) (w : Except ResponseError α × Run σ) : Prop where
  store : w.2.store = r.store
  caught : w.2.caught = r.caught
  absorbs : AbsorbsAt p r w.2
  fails : ∀ e, w.1 = .error e → e.path = [] ∨ p <+: e.path

namespace Contained

variable {p : Path} {r r' : Run σ} {w w' : Except ResponseError α × Run σ}

theorem idle (result : Except ResponseError α)
    (fails : ∀ e, result = .error e → e.path = [] ∨ p <+: e.path) :
    Contained p r (result, r) := ⟨rfl, rfl, .none rfl, fails⟩

-- A guard adds at most the error that it has absorbed, at its own position.
theorem guard {body : Exec σ (Option Datum)} (inside : Contained p r (body r)) (nullable : Bool) :
    Contained p r (Exec.guard p nullable body r) ∧
      (Exec.guard p nullable body r).2.marks = (body r).2.marks := by
  unfold Exec.guard
  generalize body r = w at inside ⊢
  obtain ⟨result, s⟩ := w
  cases result with
  | ok d => exact ⟨inside, rfl⟩
  | error e =>
    have placed : p <+: (Exec.located p e).path := by
      rw [Exec.located_path]
      split
      · exact List.prefix_rfl
      · exact (inside.fails e rfl).resolve_left ‹_›
    cases nullable with
    | true =>
      refine ⟨⟨inside.store, inside.caught, inside.absorbs.trans (.one rfl placed), ?_⟩, rfl⟩
      exact fun _ absurd => nomatch absurd
    | false =>
      refine ⟨⟨inside.store, inside.caught, inside.absorbs, fun e' same => .inr ?_⟩, rfl⟩
      obtain rfl := Except.error.inj same
      exact placed

theorem caught_mirrored (mirrored : Mirrored False r r' w w') :
    w.2.caught = r.caught ∧ w'.2.caught = r'.caught := by
  obtain ⟨n, noted, noted', none⟩ := mirrored.notes
  rw [noted.caught, noted'.caught, none.resolve_left False.elim, List.append_nil, List.append_nil]
  exact ⟨rfl, rfl⟩

-- Of two computations that do the same, one without marks, both are contained if one is.
theorem mirrored_iff (mirrored : Mirrored False r r' w w') (level : r'.store = r.store) :
    Contained p r' w' ↔ Contained p r w := by
  obtain ⟨caught, caught'⟩ := caught_mirrored mirrored
  obtain ⟨n, noted, noted', _⟩ := mirrored.notes
  have absorbs : AbsorbsAt p r w.2 ↔ ∀ e ∈ n.absorbed, p <+: e.path := by
    refine ⟨?_, fun placed => ⟨n.absorbed, noted.absorbed, placed⟩⟩
    rintro ⟨es, absorbed, placed⟩
    rw [List.append_cancel_left (noted.absorbed.symm.trans absorbed)]
    exact placed
  have absorbs' : AbsorbsAt p r' w'.2 ↔ ∀ e ∈ n.absorbed, p <+: e.path := by
    refine ⟨?_, fun placed => ⟨n.absorbed, noted'.absorbed, placed⟩⟩
    rintro ⟨es, absorbed, placed⟩
    rw [List.append_cancel_left (noted'.absorbed.symm.trans absorbed)]
    exact placed
  have store : w'.2.store = r'.store ↔ w.2.store = r.store := by
    rw [mirrored.store, level]
  constructor
  · intro contained
    refine ⟨store.mp contained.store, caught, absorbs.mpr (absorbs'.mp contained.absorbs), ?_⟩
    rw [← mirrored.result]
    exact contained.fails
  · intro contained
    refine ⟨store.mpr contained.store, caught', absorbs'.mpr (absorbs.mp contained.absorbs), ?_⟩
    rw [mirrored.result]
    exact contained.fails

end Contained

namespace Execution

-- What the selections on an object show of it.
abbrev objectData (x : Execution σ) (children : List Node) : Complete.ObjectData σ :=
  fun t o here => Datum.ofResults <$> x.selections t o here children

abbrev watchedData (x : Execution σ) (children : List Node) : Watched.ObjectData σ :=
  fun t o here => Datum.ofResults <$> x.watchSelections t o here children

end Execution

abbrev Direct.objectData (x : Execution σ) (children : List Node) : Complete.ObjectData σ :=
  fun t o here => Datum.ofResults <$> selections x t o here children

theorem Within.erase {p : Path} {r : Run σ} {w : Watch σ α} (within : Within α p r w)
    (unplaced : Unplaced r.marks) : AbsorbsAt p r w.erase.2 ∧
      ∀ e, w.erase.1 = .error e → e.path = [] ∨ p <+: e.path := by
  refine ⟨within.2 unplaced, fun e failed => ?_⟩
  have fails := (within.1 unplaced).2
  unfold Watch.erase at failed
  cases result : w.result with
  | ok a =>
    rw [result] at failed
    cases failed
  | error fault =>
    rw [result] at failed
    obtain rfl := Except.error.inj failed
    exact fails fault result

-- Where no mark waits, no error does.
theorem Unplaced.ofFree {marks : List (Path × Option ResponseError)}
    (free : ∀ q, markAt marks q = none) : Unplaced marks := by
  intro q e waits
  cases (free q).symm.trans waits

theorem Listed.ofFree {p : Path} {marks : List (Path × Option ResponseError)}
    (free : ∀ q, markAt marks q = none) : Listed p marks := by
  intro u mark _ waits
  cases (free _).symm.trans waits

theorem Raises.nothing {p : Path} (c : Catalog) (object : Complete.ObjectData σ) (loc : Location)
    (type : TypeExpr) : Raises p (Complete.outcome c object loc type p none) := by
  cases type <;> exact absent _ loc

theorem Contained.ofRaises {p : Path} {x : Exec σ α} (raises : Raises p x) (r : Run σ) :
    Contained p r (x r) := by
  rcases raises r with ⟨a, ran⟩ | ⟨e, placed, _, ran⟩
  · rw [ran]
    exact .idle _ fun _ absurd => nomatch absurd
  · rw [ran]
    refine .idle _ fun e' same => ?_
    obtain rfl := Except.error.inj same
    refine placed.imp_right fun here => ?_
    rw [here]

namespace Contained

variable {p : Path} {needs : Path → Prop} {x y : Exec σ α}

-- It is enough to look at states without marks.
theorem ofBare (mirrored : ∀ r r', Level needs r r' → Mirrored False r r' (x r) (y r'))
    (bare : ∀ r : Run σ, r.marks = [] → Contained p r (x r)) :
    (∀ r : Run σ, (∀ q, needs q → markAt r.marks q = none) → Contained p r (x r)) ∧
      ∀ r : Run σ, r.marks = [] → Contained p r (y r) ∧ (y r).2.marks = [] := by
  have direct (r : Run σ) (none : r.marks = []) :
      Contained p r (y r) ∧ (y r).2.marks = [] := by
    have level : Level needs r r := ⟨rfl, none, fun q _ => by rw [none]; rfl⟩
    have same := mirrored r r level
    exact ⟨(mirrored_iff same rfl).mpr (bare r none), same.bare⟩
  refine ⟨fun r free => ?_, direct⟩
  have level : Level needs r { r with marks := [] } := ⟨rfl, rfl, free⟩
  exact (mirrored_iff (mirrored r _ level) rfl).mp (direct _ rfl).1

end Contained

namespace Execution.Calm

variable {x : Execution σ} (calm : x.Calm) (children : List Node)

include calm

theorem objects_mirror (t : TypeDef) (o : Outcome) (q : Path) (inner : x.schema.Inner t) :
    Mirrors False (Below q) (x.objectData children t o q) (Direct.objectData x children t o q) :=
  (Direct.selections_mirrors calm.built inner o q children (.refl x _)).map Datum.ofResults

-- From a state whose errors have no position yet, what objects come to is at their own position.
theorem outcome_within {type : TypeExpr}
    (inner : ∀ t, x.schema.catalog.type? type.name = some t → x.schema.Inner t) (loc : Location)
    (p : Path) (o : Option Outcome) {r : Run σ} (unplaced : Unplaced r.marks)
    (listed : Listed p r.marks) :
    let w := Complete.outcome x.schema.catalog (x.objectData children) loc type p o r
    w.2.store = r.store ∧ AbsorbsAt p r w.2 ∧ ∀ e, w.1 = .error e → e.path = [] ∨ p <+: e.path := by
  have clears : Clears p (Complete.outcome x.schema.catalog (x.objectData children) loc type p o) :=
    .outcome type (fun t o q found => (calm.selections_clears (inner t found) o q children).map _)
      loc o
  have within := Within.steps.ofOutcome (fun _ _ _ _ _ _ _ ok => ok)
    ((Within.law calm.built).ofObjects children) loc type p o r fun found _ =>
      fits_of_type inner found
  have ran := Records.outcome (fun t o here =>
    (Records.selections x t o here children).map Datum.ofResults) x.schema.catalog loc type p o r
  refine ⟨(clears r listed).store, ?_⟩
  rw [ran]
  exact within.erase unplaced

theorem outcome_contained {type : TypeExpr}
    (inner : ∀ t, x.schema.catalog.type? type.name = some t → x.schema.Inner t) (loc : Location)
    (p : Path) (o : Option Outcome) :
    (∀ r : Run σ, (∀ q, Below p q → markAt r.marks q = none) → Contained p r
      (Complete.outcome x.schema.catalog (x.objectData children) loc type p o r)) ∧
    ∀ r : Run σ, r.marks = [] →
      let w := Complete.outcome x.schema.catalog (Direct.objectData x children) loc type p o r
      Contained p r w ∧ w.2.marks = [] := by
  have mirrors : Mirrors False (Below p)
      (Complete.outcome x.schema.catalog (x.objectData children) loc type p o)
      (Complete.outcome x.schema.catalog (Direct.objectData x children) loc type p o) :=
    .outcome (fun t o q found => calm.objects_mirror children t o q (inner t found)) loc p o
  refine Contained.ofBare (fun r r' level => (mirrors r r' level).1) fun r bare => ?_
  have free (q : Path) : markAt r.marks q = none := by
    rw [bare]
    rfl
  obtain ⟨store, absorbs, fails⟩ := calm.outcome_within children inner loc p o
    (.ofFree free) (.ofFree free)
  have level : Level (Below p) r r := ⟨rfl, bare, fun q _ => free q⟩
  exact ⟨store, (Contained.caught_mirrored (mirrors r r level).1).1, absorbs, fails⟩

-- The value of a field that does not write, before its guard has a look at it.
theorem value_contained {type : TypeDef} (known : x.schema.catalog.type? type.name = some type)
    (reads : ∀ field, ¬ x.schema.Writes type.name field) {f : FieldDef}
    (declared : type.field? f.name = some f) (parent : Outcome) (here : Path) (loc : Location)
    (arguments : Arguments) :
    (∀ r : Run σ, (∀ q, Below here q → markAt r.marks q = none) → Contained here r
      ((x.declaredField type.name f.name here loc arguments parent >>=
        Complete.outcome x.schema.catalog (x.objectData children) loc f.type here) r)) ∧
    ∀ r : Run σ, r.marks = [] →
      let w := (Direct.declaredField x type.name f.name loc arguments parent >>=
        Direct.complete x.schema.catalog (Direct.objectData x children) loc f.type here) r
      Contained here r w ∧ w.2.marks = [] := by
  have grounded := calm.built.grounded
  have mirrored (r r' : Run σ) (level : Level (Below here) r r') :=
    (Direct.value_mirrors grounded (rfl : x.schema = x.schema) (rfl : x.backend = x.backend) known
      declared (calm.objects_mirror children) parent here loc arguments level).1
  refine Contained.ofBare mirrored fun r bare => ?_
  have free (q : Path) : markAt r.marks q = none := by
    rw [bare]
    rfl
  have level : Level (Below here) r r := ⟨rfl, bare, fun q _ => free q⟩
  have caught := (Contained.caught_mirrored (mirrored r r level)).1
  have ran := x.declaredField_declared type.name f.name here loc arguments parent r
  have silent := ran.silent
  rw [bind_apply] at caught ⊢
  generalize x.declaredField type.name f.name here loc arguments parent r = w
    at ran silent caught ⊢
  cases ran with
  | refused _ steady _ =>
    refine ⟨steady.store.still calm.still, caught, .none silent.absorbed, fun e same => .inl ?_⟩
    exact silent.error e (congrArg Except.error (Except.error.inj same))
  | @unserved r' _ steady =>
    have nothing := Contained.ofRaises (Raises.nothing (p := here) x.schema.catalog
      (x.objectData children) loc f.type) r'
    exact ⟨nothing.store.trans (steady.store.still calm.still), caught,
      .since silent.absorbed nothing.absorbs, nothing.fails⟩
  | @resolved r' r'' resolver result _ resolves steady _ resolved =>
    have stays : r''.store = r.store := by
      refine (resolved.still calm.still (Resolver.sends_nil ?_ arguments)).trans
        (steady.store.still calm.still)
      rintro plan rfl
      exact reads f.name ⟨plan, resolves⟩
    cases result with
    | error e =>
      refine ⟨stays, caught, .none silent.absorbed, fun e same => .inl ?_⟩
      exact silent.error e (congrArg Except.error (Except.error.inj same))
    | ok o =>
      have listed : Listed here r''.marks :=
        resolved.listed (steady.marks ▸ .ofFree free)
      obtain ⟨store, absorbs, fails⟩ := calm.outcome_within children
        (fun t found => grounded.inner_of_field known declared resolves found) loc here o
        (silent.unplaced (.ofFree free)) listed
      exact ⟨store.trans stays, caught, .since silent.absorbed absorbs, fails⟩

end Execution.Calm

end RowGraph
