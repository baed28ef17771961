import RowGraph.Proofs.Placement.Moments
import RowGraph.Proofs.Propagation.Within
import RowGraph.Proofs.Reference.Selections
/-!
Positions by themselves. A computation that minds only the store and what waits below its position
comes to the same from every state in which nothing waits there, and adds the same errors. Main
statement: the elements of a list show what each of them shows by itself, one after another up to the
first that fails, however the list came by its marks.
-/

namespace RowGraph

variable {σ ε α β : Type}

namespace Exec

-- What a computation comes to where nothing else goes on, and the errors that it absorbs.
def alone (store : σ) (y : Exec σ α) : Except ResponseError α × List ResponseError :=
  ((y { store }).1, (y { store }).2.absorbed)

-- What positions show one after another.
def oneByOne : List (Except ResponseError (Option Datum) × List ResponseError) →
    Except ResponseError (List Datum) × List ResponseError
  | [] => (.ok [], [])
  | (.ok d, es) :: rest => ((oneByOne rest).1.map (d.getD .null :: ·), es ++ (oneByOne rest).2)
  | (.error e, es) :: _ => (.error e, es)

end Exec

-- From some state, what is shown comes out of a computation; the store is as it was.
structure Yields (r : Run σ) (shown : Except ε α × List ResponseError)
    (w : Except ε α × Run σ) : Prop where
  result : w.1 = shown.1
  absorbed : w.2.absorbed = r.absorbed ++ shown.2
  caught : w.2.caught = r.caught
  store : w.2.store = r.store

namespace Yields

variable {r r' : Run σ} {shown : Except ε α × List ResponseError} {w : Except ε α × Run σ}

theorem idle (r : Run σ) (result : Except ε α) : Yields r (result, []) (result, r) :=
  ⟨rfl, (List.append_nil _).symm, rfl, rfl⟩

-- Hooks that have been called before make no difference.
theorem uncalled {calls : List HookCall} (yields : Yields { r with calls } shown w) :
    Yields r shown w :=
  ⟨yields.result, yields.absorbed, yields.caught, yields.store⟩

theorem map (f : α → β) {x : ExceptT ε (StateM (Run σ)) α} (yields : Yields r shown (x r')) :
    Yields r (shown.1.map f, shown.2) ((f <$> x) r') := by
  rw [map_apply]
  exact ⟨congrArg (Except.map f) yields.result, yields.absorbed, yields.caught, yields.store⟩

end Yields

theorem marks_nil {marks : List (Path × Option ResponseError)}
    (none : ∀ q, markAt marks q = none) : marks = [] := by
  cases marks with
  | nil => rfl
  | cons m rest =>
    have found := none m.1
    simp [markAt] at found

-- What goes as something else does without marks goes so itself.
theorem Mirrors.self {described : Prop} {needs : Path → Prop}
    {x y : ExceptT ε (StateM (Run σ)) α} (mirrors : Mirrors described needs x y) :
    Mirrors described needs x x := by
  intro r r' level
  obtain ⟨mirrored, keeps⟩ := mirrors r r' level
  have unmarked (q : Path) : markAt r'.marks q = none := by
    rw [level.bare]
    rfl
  obtain ⟨mirrored', keeps'⟩ := mirrors r' r' ⟨rfl, level.bare, fun q _ => unmarked q⟩
  obtain ⟨n, here, there, caught⟩ := mirrored.notes
  obtain ⟨n', here', there', _⟩ := mirrored'.notes
  obtain rfl := there.unique there'
  refine ⟨⟨mirrored'.result.symm.trans mirrored.result, mirrored'.store.symm.trans mirrored.store,
    marks_nil fun q => (keeps' q).trans (unmarked q), n, here, here', caught⟩, keeps⟩

namespace Exec

-- A computation at a position that only reads, and minds no marks but those below the position.
structure Apart (p : Path) (y : Exec σ α) : Prop where
  mirrors : Mirrors False (Below p) y y
  reads : ∀ r, (∀ q, Below p q → markAt r.marks q = none) → (y r).2.store = r.store

namespace Apart

variable {p : Path} {y : Exec σ α}

-- From every state without such marks it comes to what it comes to by itself.
theorem yields (apart : Apart p y) {r : Run σ} (free : ∀ q, Below p q → markAt r.marks q = none) :
    Yields r (alone r.store y) (y r) := by
  obtain ⟨mirrored, _⟩ := apart.mirrors r { store := r.store } ⟨rfl, rfl, free⟩
  obtain ⟨n, noted, noted', caught⟩ := mirrored.notes
  refine ⟨mirrored.result.symm, ?_, ?_, apart.reads r free⟩
  · have same : (alone r.store y).2 = n.absorbed := noted'.absorbed
    rw [same, noted.absorbed]
  · rw [noted.caught, caught.resolve_left id, List.append_nil]

theorem bare (apart : Apart p y) {r : Run σ} (bare : r.marks = []) : (y r).2.marks = [] := by
  have unmarked (q : Path) : markAt r.marks q = none := by
    rw [bare]
    rfl
  obtain ⟨_, keeps⟩ := apart.mirrors r r ⟨rfl, bare, fun q _ => unmarked q⟩
  exact marks_nil fun q => (keeps q).trans (unmarked q)

theorem map (f : α → β) (apart : Apart p y) : Apart p (f <$> y) :=
  ⟨apart.mirrors.map f, fun r free => by rw [map_apply]; exact apart.reads r free⟩

theorem absorb (here : Path) (nullable : Bool) (e : ResponseError) :
    Apart (σ := σ) p (Exec.absorb here nullable e) :=
  ⟨.absorb here nullable e, fun r _ => by cases nullable <;> rfl⟩

theorem guard (nullable : Bool) {y : Exec σ (Option Datum)} (apart : Apart p y) :
    Apart p (Exec.guard p nullable y) := by
  refine ⟨apart.mirrors.guard p nullable, fun r free => ?_⟩
  have kept := apart.reads r free
  unfold Exec.guard
  rcases ran : y r with ⟨e | d, r'⟩
  · rw [ran] at kept
    cases nullable <;> exact kept
  · rw [ran] at kept
    exact kept

theorem element (loc : Location) (nullable : Bool) {body : Outcome → Exec σ (Option Datum)}
    (apart : ∀ o, Apart p (body o)) (link : Resolve.Link) :
    Apart p (Direct.element loc p nullable body link) := by
  cases link with
  | row o => exact (apart o).guard nullable
  | empty =>
    cases nullable with
    | true => exact ⟨.pure none, fun _ _ => rfl⟩
    | false => exact .absorb p false _
  | broken e => exact .absorb p nullable _

end Apart

end Exec

section

variable {here : Path} (loc : Location) (nullable : Bool)
  {body : Path → Outcome → Exec σ (Option Datum)} (apart : ∀ p o, Exec.Apart p (body p o))

-- What an element of a list shows by itself.
def Direct.shown (store : σ) (loc : Location) (nullable : Bool) (here : Path)
    (body : Path → Outcome → Exec σ (Option Datum)) (index : Nat) (link : Resolve.Link) :
    Except ResponseError (Option Datum) × List ResponseError :=
  Exec.alone store
    (element loc (here ++ [.index index]) nullable (body (here ++ [.index index])) link)

include apart

-- Without marks the elements are what they are by themselves, in turn.
theorem Direct.elements_yield (links : List Resolve.Link) (index : Nat) {s : Run σ}
    (bare : s.marks = []) :
    Yields s (Exec.oneByOne ((links.zipIdx index).map fun l =>
        shown s.store loc nullable here body l.2 l.1))
      (elements loc nullable here body index links s) := by
  induction links generalizing index s with
  | nil => exact .idle s _
  | cons link rest ih =>
    have first := Exec.Apart.element loc nullable (apart (here ++ [.index index])) link
    have free : ∀ q, Below (here ++ [.index index]) q → markAt s.marks q = none := by
      rw [bare]
      exact fun _ _ => rfl
    have now := first.yields free
    have unmarked := first.bare bare
    rw [elements, List.zipIdx_cons, List.map_cons, bind_apply]
    change Yields s (Exec.oneByOne (Exec.alone s.store _ :: _)) _
    generalize Exec.alone s.store _ = own at now ⊢
    generalize element loc (here ++ [.index index]) nullable (body (here ++ [.index index])) link s = w
      at now unmarked ⊢
    obtain ⟨own, es⟩ := own
    obtain ⟨result, s'⟩ := w
    obtain ⟨rfl, absorbed, caught, store⟩ := now
    cases result with
    | error e => exact ⟨rfl, absorbed, caught, store⟩
    | ok d =>
      have later := ih (index + 1) unmarked
      simp only [bind_apply]
      rw [Exec.oneByOne]
      rw [store] at later
      generalize elements loc nullable here body (index + 1) rest s' = v at later ⊢
      generalize Exec.oneByOne _ = more at later ⊢
      obtain ⟨ds, s''⟩ := v
      obtain ⟨rfl, absorbed', caught', store'⟩ := later
      have whole : s''.absorbed = s.absorbed ++ (es ++ more.2) := by
        rw [absorbed', absorbed, List.append_assoc]
      cases more.1 with
      | error e => exact ⟨rfl, whole, caught'.trans caught, store'.trans store⟩
      | ok ds => exact ⟨rfl, whole, caught'.trans caught, store'.trans store⟩

-- So they are with the marks of their links, where nothing else waits for those that have a row.
theorem Marked.elements_yield {links : List Resolve.Link} {r : Run σ}
    {marks : List (Path × Option ResponseError)} (marked : Marked here loc 0 links r { r with marks })
    (inside : ∀ i q, Below (here ++ [.index i]) q → markAt r.marks q = none)
    (rows : ∀ i o, links[i]? = some (.row o) → markAt r.marks (here ++ [.index i]) = none) :
    Yields r (Exec.oneByOne (links.mapIdx (Direct.shown r.store loc nullable here body)))
      (Complete.elements nullable here body 0 (links.map Resolve.Link.outcome) { r with marks }) := by
  have waits (k : Nat) (link : Resolve.Link) (found : links[k]? = some link) :
      markAt marks (here ++ [.index (0 + k)]) = link.mark loc := by
    rw [marked.own k link found]
    cases link with
    | row o =>
      rw [Nat.zero_add]
      exact rows k o found
    | empty => rfl
    | broken e => rfl
  have deeper (i : Nat) (q : Path) (below : Below (here ++ [.index i]) q) : markAt marks q = none := by
    refine (marked.other q fun k _ same => ?_).trans (inside i q below)
    obtain ⟨step, rest, rfl⟩ := below
    have length := congrArg List.length same
    simp at length
  let bare : Run σ := { r with marks := [] }
  have same : bare.store = ({ r with marks } : Run σ).store := rfl
  obtain ⟨mirrored, _⟩ := Direct.elements_mirrors nullable (fun p o => (apart p o).mirrors) links 0
    same rfl deeper waits
  have yields : Yields bare (Exec.oneByOne ((links.zipIdx 0).map fun l =>
      Direct.shown bare.store loc nullable here body l.2 l.1))
      (Direct.elements loc nullable here body 0 links bare) :=
    Direct.elements_yield loc nullable apart links 0 rfl
  obtain ⟨n, noted, noted', caught⟩ := mirrored.notes
  rw [List.mapIdx_eq_zipIdx_map]
  refine ⟨mirrored.result.symm.trans yields.result, ?_, ?_, ?_⟩
  · have same := noted'.absorbed.symm.trans yields.absorbed
    rw [noted.absorbed]
    exact same
  · rw [noted.caught, caught.resolve_left id, List.append_nil]
  · exact mirrored.store.symm.trans yields.store

end

theorem Exec.oneByOne_ok {α : Type} {as : List α}
    {shown : α → Except ResponseError (Option Datum) × List ResponseError}
    {data : α → Datum × List ResponseError}
    (all : ∀ a ∈ as, ∃ d, shown a = (.ok d, (data a).2) ∧ d.getD .null = (data a).1) :
    oneByOne (as.map shown) = (.ok (as.map fun a => (data a).1), as.flatMap fun a => (data a).2) := by
  induction as with
  | nil => rfl
  | cons a rest ih =>
    obtain ⟨d, first, same⟩ := all a List.mem_cons_self
    rw [List.map_cons, first, oneByOne, ih fun a member => all a (List.mem_cons_of_mem _ member), same]
    rfl

namespace Execution

-- What a row shows by itself at a position.
def rowAt (x : Execution σ) (t : TypeDef) (children : List Node) (store : σ) (nullable : Bool)
    (p : Path) (o : Outcome) : Except ResponseError (Option Datum) × List ResponseError :=
  Exec.alone store (Exec.guard p nullable (some <$> x.shown children t o p))

-- A row where null may stand, and null for none.
def rowOrNull (x : Execution σ) (t : TypeDef) (children : List Node) (p : Path) :
    Option Outcome → Exec σ (Option Datum)
  | some o => Exec.guard p true (some <$> x.shown children t o p)
  | none => pure none

-- What a position that may be null shows of a row or of none, or of what has kept it from a row.
def linkedAt (x : Execution σ) (t : TypeDef) (children : List Node) (loc : Location) (store : σ)
    (p : Path) : Except GraphError (Option Outcome) → Datum × List ResponseError
  | .ok o =>
    let (result, es) := Exec.alone store (x.rowOrNull t children p o)
    ((result.toOption.bind id).getD .null, es)
  | .error e => (.null, [{ e.raisedAt loc with path := p }])

variable {x : Execution σ} {t : TypeDef}

theorem Calm.shown_apart (calm : x.Calm) (inner : x.schema.Inner t) (children : List Node)
    (o : Outcome) (p : Path) : Exec.Apart p (x.shown children t o p) := by
  refine ⟨((Direct.selections_mirrors calm.built inner o p children (Kin.refl x _)).map _).self,
    fun r free => ?_⟩
  refine (((calm.selections_clears inner o p children).map _) r fun u mark below found => ?_).store
  cases (free _ (Below.append p below)).symm.trans found

-- Its errors are at the position or inside of it.
theorem rowAt_placed (built : x.schema.Built) (inner : x.schema.Inner t) (children : List Node)
    (store : σ) (nullable : Bool) (p : Path) (o : Outcome) :
    ∀ e ∈ (x.rowAt t children store nullable p o).2, p <+: e.path := by
  have unplaced : Unplaced ({ store } : Run σ).marks := fun _ _ absurd => nomatch absurd
  have sound : Within _ p { store } (x.watchSelections t o p children { store }) :=
    (Within.law built).ofSelections children p { store } inner
  obtain ⟨upright, within⟩ := sound
  obtain ⟨es, absorbed, placed⟩ := within unplaced
  have fails := (upright unplaced).2
  unfold rowAt Exec.alone Exec.guard shown
  rw [map_apply, map_apply, Records.selections x t o p children { store }]
  simp only [Watch.erase]
  generalize x.watchSelections t o p children { store } = w at absorbed fails ⊢
  cases result : w.result with
  | ok results => exact absorbed ▸ placed
  | error fault =>
    simp only [Except.mapError, Except.map]
    cases nullable with
    | false => exact absorbed ▸ placed
    | true =>
      intro e member
      change e ∈ w.run.absorbed ++ [Exec.located p fault.error] at member
      rw [absorbed] at member
      rcases List.mem_append.mp member with inside | last
      · exact placed e inside
      · rw [List.mem_singleton.mp last, Exec.located_path]
        split
        · exact List.prefix_rfl
        · exact (fails fault result).resolve_left ‹_›

theorem linkedAt_placed (built : x.schema.Built) (inner : x.schema.Inner t) (children : List Node)
    (loc : Location) (store : σ) (p : Path) (result : Except GraphError (Option Outcome)) :
    ∀ e ∈ (x.linkedAt t children loc store p result).2, p <+: e.path := by
  match result with
  | .ok (some o) => exact rowAt_placed built inner children store true p o
  | .ok none => exact fun _ absurd => nomatch absurd
  | .error e =>
    intro e' member
    rw [List.mem_singleton.mp member]

end Execution

-- A link by what has been said of it.
def Resolve.Link.of : Except GraphError (Option Outcome) → Link
  | .ok o => .ofRow o
  | .error e => .broken e

-- An element that may be null shows its row, or null.
theorem Direct.shown_linked (x : Execution σ) (t : TypeDef) (children : List Node) (store : σ)
    (loc : Location) (here : Path) (i : Nat) (result : Except GraphError (Option Outcome)) :
    let linked := x.linkedAt t children loc store (here ++ [.index i]) result
    ∃ d, shown store loc true here (fun p o => some <$> x.shown children t o p) i (.of result) =
      (.ok d, linked.2) ∧ d.getD .null = linked.1 := by
  match result with
  | .ok (some o) =>
    obtain ⟨d, r, ran⟩ := Exec.guard_nullable (here ++ [.index i])
      (some <$> x.shown children t o (here ++ [.index i])) { store }
    have alone : Exec.alone store (x.rowOrNull t children (here ++ [.index i]) (some o)) =
        (.ok d, r.absorbed) := by
      unfold Exec.alone
      rw [Execution.rowOrNull, ran]
    refine ⟨d, ?_, ?_⟩
    · simp only [Execution.linkedAt, alone]
      exact alone
    · simp only [Execution.linkedAt, alone]
      cases d <;> rfl
  | .ok none => exact ⟨none, rfl, rfl⟩
  | .error e => exact ⟨none, rfl, rfl⟩

theorem Direct.oneByOne_linked (x : Execution σ) (t : TypeDef) (children : List Node) (store : σ)
    (loc : Location) (here : Path) (r : α → Except GraphError (Option Outcome)) (as : List α) :
    let linked := as.mapIdx fun i a => x.linkedAt t children loc store (here ++ [.index i]) (r a)
    Exec.oneByOne ((as.map fun a => Resolve.Link.of (r a)).mapIdx
        (shown store loc true here fun p o => some <$> x.shown children t o p)) =
      (.ok (linked.map (·.1)), linked.flatMap (·.2)) := by
  simp only [List.mapIdx_eq_zipIdx_map, List.zipIdx_map, List.map_map, List.flatMap_map]
  exact Exec.oneByOne_ok fun a _ => shown_linked x t children store loc here a.2 (r a.1)

theorem Direct.oneByOne_rows (x : Execution σ) (t : TypeDef) (children : List Node) (store : σ)
    (loc : Location) (nullable : Bool) (here : Path) (os : List Outcome) :
    Exec.oneByOne ((os.map Resolve.Link.row).mapIdx
        (shown store loc nullable here fun p o => some <$> x.shown children t o p)) =
      Exec.oneByOne (os.mapIdx fun i o => x.rowAt t children store nullable (here ++ [.index i]) o) := by
  simp only [List.mapIdx_eq_zipIdx_map, List.zipIdx_map, List.map_map]
  rfl

-- A row is completed as an object of its type.
theorem Complete.outcome_row {c : Catalog} {t : TypeDef} {fields : List FieldDef}
    (body : t.body = .object fields) {name : String} (found : c.type? name = some t)
    (object : ObjectData σ) (loc : Location) (nonNull : Bool) (here : Path) (o : Outcome) :
    outcome c object loc (.named name nonNull) here (some o) = some <$> object t o here := by
  unfold outcome value
  rw [found]
  simp only [body]

-- A list of rows is completed row by row.
theorem Complete.outcome_rows {c : Catalog} {t : TypeDef} {fields : List FieldDef}
    (body : t.body = .object fields) {name : String} (found : c.type? name = some t)
    (object : ObjectData σ) (loc : Location) {required nullable : Bool} (free : nullable = !required)
    (nonNull : Bool) (here : Path) (os : List Outcome) :
    outcome c object loc (.list (.named name required) nonNull) here (some (.list os)) =
      (some ∘ Datum.list) <$>
        elements nullable here (fun p o => some <$> object t o p) 0 os := by
  have each : (fun p o => outcome c object loc (.named name required) p (some o)) =
      fun p o => some <$> object t o p := by
    funext p o
    exact outcome_row body found object loc required p o
  unfold outcome
  simp only
  rw [each, free]
  rfl

-- A field that hands on a list with a mark for each element that has no row shows what its elements
-- show by themselves, in turn.
theorem Execution.Calm.list_yields {x : Execution σ} (calm : x.Calm) {t : TypeDef}
    {fields : List FieldDef} (body : t.body = .object fields) {name : String}
    (known : x.schema.catalog.type? name = some t) (inner : x.schema.Inner t) (children : List Node)
    {here : Path} {loc : Location} {links : List Resolve.Link} {r : Run σ}
    {marks : List (Path × Option ResponseError)} (marked : Marked here loc 0 links r { r with marks })
    (inside : ∀ i q, Below (here ++ [.index i]) q → markAt r.marks q = none)
    (rows : ∀ i o, links[i]? = some (.row o) → markAt r.marks (here ++ [.index i]) = none)
    {required nullable : Bool} (free : nullable = !required) (nonNull : Bool) :
    let shown := Exec.oneByOne (links.mapIdx
      (Direct.shown r.store loc nullable here fun p o => some <$> x.shown children t o p))
    Yields r (shown.1.map (some ∘ Datum.list), shown.2)
      (Complete.outcome x.schema.catalog (x.shown children) loc (.list (.named name required) nonNull)
        here (some (.list (links.map Resolve.Link.outcome))) { r with marks }) := by
  have yields := marked.elements_yield loc nullable
    (fun p o => (calm.shown_apart inner children o p).map some) inside rows
  rw [Complete.outcome_rows body known (x.shown children) loc free nonNull]
  exact yields.map (some ∘ Datum.list)

end RowGraph
