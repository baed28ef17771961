import RowGraph.Proofs.Mutation.Standing
import RowGraph.Proofs.Placement.Waiting
import RowGraph.Proofs.Reference.Root
/-!
Queries in which nothing goes wrong. As long as no mark has been set and no error has been stopped,
the store and the hooks that were called are all there is to a request; what is said here of a part
of a query is said of it at such a moment. Main statements: a leaf value that its type can show is
shown as it was written, and selections all of which show something show it under their keys, in
order.
-/

namespace RowGraph

variable {ε α β : Type}

-- Nothing has happened to a query so far, except that hooks were called.
structure Uneventful (m : Memory) (r : Run Memory) : Prop where
  store : r.store = m
  marks : r.marks = []
  absorbed : r.absorbed = []
  caught : r.caught = []

theorem Uneventful.start (m : Memory) : Uneventful m { store := m } := ⟨rfl, rfl, rfl, rfl⟩

theorem Uneventful.steady {m : Memory} {r r' : Run Memory} (quiet : Uneventful m r)
    (steady : Steady Memory.backend r r') : Uneventful m r' :=
  ⟨(steady.store.still Memory.still).trans quiet.store, steady.marks.trans quiet.marks,
    steady.absorbed.trans quiet.absorbed, steady.caught.trans quiet.caught⟩

-- At such a moment, and on such a store, a computation comes to something, and the moment lasts.
def Comes (m : Memory) (x : ExceptT ε (StateM (Run Memory)) α) (P : α → Prop) : Prop :=
  ∀ r, Uneventful m r → ∃ a r', x r = (.ok a, r') ∧ Uneventful m r' ∧ P a

namespace Comes

variable {m : Memory} {P : α → Prop} {Q : β → Prop}

theorem imp {P' : α → Prop} {x : ExceptT ε (StateM (Run Memory)) α} (comes : Comes m x P)
    (holds : ∀ a, P a → P' a) : Comes m x P' := by
  intro r quiet
  obtain ⟨a, r', ran, quiet', here⟩ := comes r quiet
  exact ⟨a, r', ran, quiet', holds a here⟩

theorem pure {a : α} (holds : P a) :
    Comes m (Pure.pure a : ExceptT ε (StateM (Run Memory)) α) P :=
  fun r quiet => ⟨a, r, rfl, quiet, holds⟩

theorem bind {x : ExceptT ε (StateM (Run Memory)) α} {f : α → ExceptT ε (StateM (Run Memory)) β}
    (first : Comes m x P) (rest : ∀ a, P a → Comes m (f a) Q) : Comes m (x >>= f) Q := by
  intro r quiet
  obtain ⟨a, r', ran, quiet', holds⟩ := first r quiet
  rw [bind_apply, ran]
  exact rest a holds r' quiet'

theorem map {x : ExceptT ε (StateM (Run Memory)) α} {f : α → β} (comes : Comes m x P)
    (holds : ∀ a, P a → Q (f a)) : Comes m (f <$> x) Q := by
  rw [map_eq_pure_bind]
  exact comes.bind fun a here => pure (holds a here)

theorem lift {a : α} (holds : P a) :
    Comes m (liftM (Except.ok a : Except ε α) : ExceptT ε (StateM (Run Memory)) α) P :=
  fun r quiet => ⟨a, r, rfl, quiet, holds⟩

theorem adapt {ε' : Type} {x : ExceptT ε (StateM (Run Memory)) α} (comes : Comes m x P)
    (f : ε → ε') : Comes m (ExceptT.adapt f x) P := by
  intro r quiet
  obtain ⟨a, r', ran, quiet', holds⟩ := comes r quiet
  exact ⟨a, r', by rw [adapt_apply, ran]; rfl, quiet', holds⟩

variable {body : Exec Memory (Option Datum)} {R : Option Datum → Prop}

theorem guard (comes : Comes m body R) (path : Path) (nullable : Bool) :
    Comes m (Exec.guard path nullable body) R := by
  intro r quiet
  obtain ⟨d, r', ran, quiet', holds⟩ := comes r quiet
  exact ⟨d, r', by rw [Exec.guard, ran], quiet', holds⟩

-- Without a mark an element is resolved like any other position.
theorem element (comes : Comes m body R) (path : Path) (nullable : Bool) :
    Comes m (Exec.element path nullable body) R := by
  intro r quiet
  have unmarked : Exec.takeMark path r = (none, r) := by
    unfold Exec.takeMark
    rw [quiet.marks]
    rfl
  unfold Exec.element
  rw [bind_apply, lift_apply, unmarked]
  exact comes.guard path nullable r quiet

theorem hooks {s : Schema} {type field : String} {arguments : Arguments}
    (free : s.refusal? type field arguments = none) (loc : Location) :
    Comes m (Execution.runHooks type field loc arguments
      ((FieldMap.get? s.hooks type field).getD [])) fun _ => True := by
  intro r quiet
  have free : Hook.refusalAmong arguments ((FieldMap.get? s.hooks type field).getD []) = none := free
  rw [Execution.runHooks_called, free]
  exact ⟨(), _, rfl, quiet.steady ⟨.nothing, rfl, rfl, rfl⟩, trivial⟩

end Comes

-- Written values that a leaf type can show: an enum shows its own values, and a list only lists.
inductive Catalog.Holds (c : Catalog) : TypeExpr → Datum → Prop where
  | scalar {name : String} {nonNull : Bool} {t : TypeDef} {d : Datum} :
      c.type? name = some t → t.body = .scalar → Holds c (.named name nonNull) d
  | enum {name v : String} {nonNull : Bool} {t : TypeDef} {values : List String} {d : Datum} :
      c.type? name = some t → t.body = .enum values → d.text? = some v → v ∈ values →
      Holds c (.named name nonNull) d
  | list {item : TypeExpr} {nonNull : Bool} {ds : List Datum} :
      (∀ d ∈ ds, Holds c item d) → Holds c (.list item nonNull) (.list ds)

namespace Comes

variable {m : Memory} {c : Catalog} {object : Complete.ObjectData Memory} {loc : Location}

-- A position shows what was written there.
def Showing (written : Datum) (d : Option Datum) : Prop :=
  ∃ shown, d = some shown ∧ written.Shows shown

theorem elements {nullable : Bool} {path : Path} {body : Path → α → Exec Memory (Option Datum)}
    {written : List Datum} {os : List α}
    (each : List.Forall₂ (fun d o => ∀ here, Comes m (body here o) (Showing d)) written os)
    (index : Nat) : Comes m (Complete.elements nullable path body index os) fun shown =>
      List.Forall₂ Datum.Shows written shown := by
  induction each generalizing index with
  | nil => exact pure .nil
  | cons first _ ih =>
    refine ((first _).element _ nullable).bind fun d showing => ?_
    obtain ⟨shown, rfl, shows⟩ := showing
    exact (ih (index + 1)).bind fun more all => pure (.cons shows all)

theorem scalar {name : String} {nonNull : Bool} {t : TypeDef} (known : c.type? name = some t)
    (body : t.body = .scalar) (d : Datum) (path : Path) :
    Comes m (Complete.outcome c object loc (.named name nonNull) path (some (.leaf d)))
      (· = some d) := by
  unfold Complete.outcome
  simp only [known, Complete.value, body]
  exact (pure rfl).map fun d' (same : d = d') => same ▸ rfl

theorem rowObject {name : String} {nonNull : Bool} {t : TypeDef} {fields : List FieldDef}
    {o : Outcome} {path : Path} {P : Datum → Prop} (known : c.type? name = some t)
    (body : t.body = .object fields) (shows : Comes m (object t o path) P) :
    Comes m (Complete.outcome c object loc (.named name nonNull) path (some o)) fun d =>
      ∃ shown, d = some shown ∧ P shown := by
  unfold Complete.outcome
  simp only [known, Complete.value, body]
  exact shows.map fun d holds => ⟨d, rfl, holds⟩

-- A nullable position shows nothing where there is nothing.
theorem nothing {type : TypeExpr} (nullable : type.nullable = true) (path : Path) :
    Comes m (Complete.outcome c object loc type path none) (· = none) := by
  have absent : Comes m (Complete.absent type.nonNull path loc) (· = none) := by
    unfold Complete.absent
    rw [if_neg (by simpa [TypeExpr.nullable] using nullable)]
    exact pure rfl
  cases type <;> exact absent

theorem leaf {type : TypeExpr} {written shown : Datum} (holds : c.Holds type written)
    (shows : written.Shows shown) (path : Path) :
    Comes m (Complete.outcome c object loc type path (some (.leaf shown))) (Showing written) := by
  induction holds generalizing shown path with
  | scalar known body =>
    exact (scalar known body shown path).imp fun _ same => ⟨shown, same, shows⟩
  | @enum name v nonNull t values d known body named own =>
    have text : shown.text? = some v := by
      cases shows with
      | text written shown => exact shown.trans (written.symm.trans named)
      | _ => cases named
    have names : Comes m (Complete.enumValue t values path loc (.leaf shown)) (· = .enum v) := by
      have inside : values.contains v = true := List.contains_iff_mem.mpr own
      unfold Complete.enumValue
      cases shown with
      | string s =>
        obtain rfl := Option.some.inj text
        simp only [inside]
        exact pure rfl
      | enum s =>
        obtain rfl := Option.some.inj text
        simp only [inside]
        exact pure rfl
      | _ => cases text
    unfold Complete.outcome
    simp only [known, Complete.value, body]
    exact names.map fun _ same => ⟨_, congrArg some same, .text named rfl⟩
  | @list item nonNull ds _ ih =>
    cases shows with
    | text absurd _ => cases absurd
    | @list _ shown each =>
      have all : List.Forall₂ (fun d o => ∀ here, Comes m
          (Complete.outcome c object loc item here (some o)) (Showing d)) ds (shown.map .leaf) :=
        List.forall₂_map_right_iff.mpr
          (((List.forall₂_and_left _ _).mpr ⟨@ih, each⟩).imp fun _ _ both => both.1 both.2)
      unfold Complete.outcome
      exact (elements all 0).map fun shown' shows => ⟨.list shown', rfl, .list shows⟩

end Comes

namespace Execution

variable {m : Memory} {x : Execution Memory} {type : TypeDef} {parent : Outcome} {path : Path}

-- A field is found under its name, and nothing refuses it.
structure Meets (x : Execution Memory) (type : TypeDef) (head : FieldHead) (f : FieldDef)
    (arguments : Arguments) : Prop where
  declared : type.field? head.name = some f
  given : ∃ written, x.givenArguments head.arguments = .ok written ∧
    arguments = withDefaults f.arguments written
  free : x.schema.refusal? type.name f.name arguments = none

variable {head : FieldHead} {f : FieldDef} {arguments : Arguments} {resolver : Resolver}
  {P : Option Outcome → Prop} {Q : Option Datum → Prop} {object : Complete.ObjectData Memory}

theorem Meets.field (meets : x.Meets type head f arguments)
    (resolves : FieldMap.get? x.schema.resolvers type.name f.name = some resolver)
    (value : Comes m (x.resolver (path ++ [.field head.key]) head.loc arguments parent resolver) P)
    (completes : ∀ o, P o → Comes m
      (Complete.outcome x.schema.catalog object head.loc f.type (path ++ [.field head.key]) o) Q) :
    Comes m (x.field type parent path head object f) Q := by
  obtain ⟨written, read, rfl⟩ := meets.given
  have arguments : Comes m (x.arguments f head) (· = withDefaults f.arguments written) := by
    unfold Execution.arguments
    rw [read]
    exact (Comes.lift rfl).bind fun a (same : written = a) => .pure (same ▸ rfl)
  have declares : Comes m (x.declaredField type.name f.name (path ++ [.field head.key]) head.loc
      (withDefaults f.arguments written) parent) P := by
    unfold Execution.declaredField
    rw [resolves]
    exact (Comes.hooks meets.free head.loc).bind fun _ _ => value.adapt _
  unfold Execution.field
  refine arguments.bind fun a same => ?_
  obtain rfl : a = _ := same
  exact (declares.bind completes).guard _ _

theorem Meets.selection (meets : x.Meets type head f arguments)
    (plain : head.name ≠ "__typename") (other : x.entrance? type head.name = none)
    (children : List Node) (shows : Comes m (x.field type parent path head
      (fun t o here => Datum.ofResults <$> x.selections t o here children) f) Q) :
    Comes m (x.selection type parent path (.field head children)) fun results =>
      ∃ d, results = [(head.key, d.getD .null)] ∧ Q d := by
  unfold Execution.selection
  rw [if_neg plain, other, meets.declared]
  exact shows.bind fun d holds => .pure ⟨d, rfl, holds⟩

-- Selections show what each of them shows.
theorem comes_selections {nodes : List Node} {R : Choice → Datum → Prop}
    (each : ∀ l ∈ Node.shown type.name nodes, Comes m (x.selection type parent path l.node)
      fun results => ∃ d, results = [(l.key, d)] ∧ R l d) :
    Comes m (x.selections type parent path nodes) fun results =>
      List.Forall₂ (fun l member => member.1 = l.key ∧ R l member.2) (Node.shown type.name nodes)
        results := by
  rw [(x.opens type parent path).nodes]
  generalize Node.shown type.name nodes = choices at each ⊢
  induction choices with
  | nil => exact .pure .nil
  | cons l rest ih =>
    unfold Exec.inTurn
    refine (each l List.mem_cons_self).bind fun results shown => ?_
    obtain ⟨d, rfl, holds⟩ := shown
    refine (ih fun l member => each l (List.mem_cons_of_mem _ member)).bind fun more all => ?_
    exact .pure (.cons ⟨rfl, holds⟩ all)

-- What comes of all selections is the whole answer: there are no errors.
theorem comes_run {nodes : List Node} {P : List (String × Datum) → Prop}
    (comes : Comes m (x.selections type .root [] nodes) P) :
    ∃ results, (x.run type nodes m).1 = ⟨Datum.ofResults results, []⟩ ∧ P results := by
  obtain ⟨results, r, ran, quiet, holds⟩ := comes _ (.start m)
  refine ⟨results, ?_, holds⟩
  unfold Execution.run ExceptT.run
  rw [ran]
  simp only [quiet.absorbed, quiet.caught, List.append_nil]

end Execution

end RowGraph
