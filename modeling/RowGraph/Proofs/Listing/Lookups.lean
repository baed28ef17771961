import RowGraph.Proofs.Listing.Fields
import RowGraph.Proofs.Placement.Ways
import RowGraph.Proofs.Schema.Pieces
/-!
Lookups by ids. Main statement: wherever an execution comes to a field of the root that takes a list of
ids, the field shows the row of each id at the index of the id, and null without an error for what has
no row, as a field that takes one id does; if its items may not be null, the first id without a row
fails the field; and without ids there is no list, and nothing is read.
-/

namespace RowGraph

open Resolve

namespace Exec

variable {shown : List (Except ResponseError (Option Datum) × List ResponseError)}

-- Positions are shown up to the first that fails.
theorem oneByOne_stops {i : Nat} {e : ResponseError} {es : List ResponseError}
    (there : shown[i]? = some (.error e, es))
    (before : ∀ j < i, ∃ d, shown[j]? = some (.ok d, [])) : oneByOne shown = (.error e, es) := by
  induction shown generalizing i with
  | nil => cases there
  | cons first rest ih =>
    cases i with
    | zero =>
      obtain rfl := Option.some.inj there
      rfl
    | succ i =>
      obtain ⟨d, same⟩ := before 0 (Nat.succ_pos i)
      obtain rfl : first = (.ok d, []) := Option.some.inj same
      have later := ih there fun j below => before (j + 1) (Nat.succ_lt_succ below)
      rw [oneByOne, later]
      rfl

end Exec

-- A list of ids leads to their rows, with a mark for each id that has none.
theorem Resolve.root_list {argument table : String} {shape : FieldShape} {required : Bool}
    {arguments : Arguments} (kind : shape.kind = .referenceList table required) {ids : List Datum}
    (given : argument? arguments argument = some (.list ids))
    (readable : ∀ d ∈ ids, d.isNull = true ∨ (idOfDatum? d).isSome = true)
    (here : Path) (loc : Location) (r : Run Memory) :
    let links := ids.map fun d => Link.of (.ok (found r.store table shape.entry d))
    ∃ marks, root Memory.backend argument shape here loc arguments r =
        (.ok (some (.list (links.map Link.outcome))), { r with marks }) ∧
      Marked here loc 0 links r { r with marks } := by
  intro links
  obtain ⟨marks, ran, marked⟩ := linkElements_marked here loc links 0 r
  refine ⟨marks, ?_, marked⟩
  unfold root
  rw [kind, given]
  simp only
  rw [bind_apply, rootRows_found argument table shape.entry readable r]
  simp only
  rw [bind_apply, rootElements_eq, List.map_map]
  have same : ids.map (Link.ofRow ∘ found r.store table shape.entry) = links := rfl
  rw [same, ran]
  rfl

namespace Execution

variable {σ : Type}

-- What a position that may not be null shows of a row, or of none.
def neededAt (x : Execution σ) (t : TypeDef) (children : List Node) (store : σ) (p : Path) :
    Option Outcome → Except ResponseError (Option Datum) × List ResponseError
  | some o => x.rowAt t children store false p o
  | none => (.error { Exec.missingElement with path := p }, [])

end Execution

theorem Direct.oneByOne_needed {σ α : Type} (x : Execution σ) (t : TypeDef) (children : List Node)
    (store : σ) (loc : Location) (here : Path) (r : α → Option Outcome) (as : List α) :
    Exec.oneByOne ((as.map fun a => Link.of (.ok (r a))).mapIdx
        (shown store loc false here fun p o => some <$> x.shown children t o p)) =
      Exec.oneByOne (as.mapIdx fun i a => x.neededAt t children store (here ++ [.index i]) (r a)) := by
  have each (i : Nat) (o : Option Outcome) :
      shown store loc false here (fun p o => some <$> x.shown children t o p) i (.ofRow o) =
        x.neededAt t children store (here ++ [.index i]) o := by
    cases o <;> rfl
  simp only [List.mapIdx_eq_zipIdx_map, List.zipIdx_map, List.map_map]
  exact congrArg Exec.oneByOne (List.map_congr_left fun a _ => each a.2 (r a.1))

-- At a moment a field is given a list of ids, some of which may be null, and at those that have a row
-- no mark waits that another list has left behind.
structure Execution.Given (m : Moment Memory) (head : FieldHead) (arguments : Arguments)
    (argument : String) (r : Datum → Option Outcome) (ids : List Datum) : Prop where
  given : argument? arguments argument = some (.list ids)
  readable : ∀ d ∈ ids, d.isNull = true ∨ (idOfDatum? d).isSome = true
  unspoilt : ∀ i d o, ids[i]? = some d → r d = some o → Execution.Unspoilt m head [.index i]

-- A field of the root shows the rows of a list of ids, each of which leads to its row by itself.
structure Execution.Lookups (x : Execution Memory) (root : TypeDef) (nodes : List Node)
    (start : Memory) (m : Moment Memory) (head : FieldHead) (f : FieldDef) (children : List Node)
    (argument table : String) (shape : FieldShape) (required : Bool) (arguments : Arguments)
    (r : Datum → Option Outcome) (t : TypeDef) : Prop where
  type : f.type = .list (.named f.type.name required) f.type.nonNull
  shown : x.schema.catalog.type? f.type.name = some t
  row : ∀ d id, idOfDatum? d = some id →
    r d = (m.run.store.get? ⟨table, id⟩).map (·.outcome shape.entry)
  null : r .null = none
  -- Items that may be null: every row is shown at the index of its id, and no row is no error.
  lenient : ∀ ids, Execution.Given m head arguments argument r ids → required = false →
    let linked := ids.mapIdx fun i d =>
      x.linkedAt t children head.loc m.run.store (m.element head i) (.ok (r d))
    x.Shows m head f children (.ok (some (.list (linked.map (·.1)))), linked.flatMap (·.2))
  silent : ∀ i d, r d = none →
    x.linkedAt t children head.loc m.run.store (m.element head i) (.ok (r d)) = (.null, [])
  placed : ∀ i d, ∀ e ∈ (x.linkedAt t children head.loc m.run.store (m.element head i) (.ok (r d))).2,
    m.element head i <+: e.path
  -- A field that takes one id shows the same row, or null.
  single : ∀ (head' : FieldHead) f' arguments' argument' shape' d,
    x.Invokes m head' f' arguments' (.root argument' shape') → shape'.kind = .reference table →
    f'.type.name = f.type.name → f'.type.nullable = true →
    (d.isNull = true ∧ argument? arguments' argument' = none ∨
      (idOfDatum? d).isSome = true ∧ argument? arguments' argument' = some d) →
    ∃ calls, x.selection m.type m.parent m.path (.field head' children) m.run =
      ((fun d => [(head'.key, d.getD .null)]) <$>
        x.rowOrNull t children (m.path ++ [.field head'.key]) (r d)) { m.run with calls }
  -- Items that may not be null: the elements are shown up to the first that has no row or fails.
  strict : ∀ ids, Execution.Given m head arguments argument r ids → required = true →
    let shown := Exec.oneByOne (ids.mapIdx fun i d =>
      x.neededAt t children m.run.store (m.element head i) (r d))
    x.Shows m head f children (shown.1.map (some ∘ .list), shown.2)
  -- The first id without a row fails the field, and with it everything if the field may not be null.
  missing : ∀ ids, Execution.Given m head arguments argument r ids → required = true →
    ∀ (i : Nat) d, ids[i]? = some d → r d = none →
      (∀ j < i, ∀ d', ids[j]? = some d' → ∃ o data, r d' = some o ∧
        x.rowAt t children m.run.store false (m.element head j) o = (.ok data, [])) →
      let e := { Exec.missingElement with path := m.element head i }
      (f.type.nullable = true → Yields m.run (.ok [(head.key, .null)], [e])
        (x.selection m.type m.parent m.path (.field head children) m.run)) ∧
      (f.type.nullable = false → ∀ rest, m.nodes = .field head children :: rest →
        (x.run root nodes start).1 = ⟨.null, e :: (m.run.caught ++ m.run.absorbed)⟩)
  absent : argument? arguments argument = none → x.Shows m head f children
    (if f.type.nonNull then .error
        { message := "internal: non-null types require a return value"
          path := m.path ++ [.field head.key], locations := [head.loc] }
      else .ok none, [])
  unread : argument? arguments argument = none → ∀ {σ : Type} (b : Backend σ) here loc run,
    Resolve.root b argument shape here loc arguments run = (.ok none, run)

namespace Execution

section

variable {x : Execution Memory} (calm : x.Calm) (memory : x.backend = Memory.backend)
  {m : Moment Memory} {head : FieldHead} {f : FieldDef} {arguments : Arguments} {argument : String}
  {shape : FieldShape}

include memory

theorem resolver_root {here : Path} {loc : Location} {r r' : Run Memory}
    {result : Except GraphError (Option Outcome)}
    (ran : Resolve.root Memory.backend argument shape here loc arguments r = (result, r'))
    (parent : Outcome) :
    x.resolver here loc arguments parent (.root argument shape) r = (result, r') := by
  unfold resolver
  rw [memory]
  exact ran

variable (invokes : x.Invokes m head f arguments (.root argument shape)) {children : List Node}

include invokes

-- A field that takes one id shows its row, or null.
theorem single_row (built : x.schema.Built) {table : String} (kind : shape.kind = .reference table)
    (type : f.type = .named f.type.name f.type.nonNull) (nullable : f.type.nullable = true)
    {t : TypeDef} {fields : List FieldDef} (body : t.body = .object fields)
    (known : x.schema.catalog.type? f.type.name = some t) {entry : Bool} (form : shape.entry = entry)
    {d : Datum} (given : d.isNull = true ∧ argument? arguments argument = none ∨
      (idOfDatum? d).isSome = true ∧ argument? arguments argument = some d) (children : List Node) :
    ∃ calls, x.selection m.type m.parent m.path (.field head children) m.run =
      ((fun d => [(head.key, d.getD .null)]) <$> x.rowOrNull t children (m.path ++ [.field head.key])
        (found m.run.store table entry d)) { m.run with calls } := by
  obtain ⟨calls, ran⟩ := invokes.field children
  refine ⟨calls, ?_⟩
  have resolved := resolver_root memory
    (root_single kind given (m.path ++ [.field head.key]) head.loc { m.run with calls }) m.parent
  rw [form] at resolved
  have free : f.type.nonNull = false := by simpa [TypeExpr.nullable] using nullable
  rw [invokes.selection built, map_apply, map_apply, ran, nullable]
  unfold Exec.guard
  rw [served_ok resolved, type, free]
  cases found m.run.store table entry d with
  | none => rfl
  | some o =>
    rw [Complete.outcome_row body known]
    rfl

include calm

theorem absent_yields (rows : shape.kind ≠ .scalar) {item : TypeExpr} {nonNull : Bool}
    (type : f.type = .list item nonNull) (absent : argument? arguments argument = none) :
    x.Shows m head f children
      (if f.type.nonNull then .error
          { message := "internal: non-null types require a return value"
            path := m.path ++ [.field head.key], locations := [head.loc] }
        else .ok none, []) := by
  refine invokes.shows calm.built fun calls => ?_
  have resolved := resolver_root memory (root_absent Memory.backend rows absent
    (m.path ++ [.field head.key]) head.loc { m.run with calls }) m.parent
  rw [served_ok resolved, type]
  cases nonNull <;> exact .idle _ _

variable {table : String} {required : Bool} (kind : shape.kind = .referenceList table required)
  {nonNull : Bool} (type : f.type = .list (.named f.type.name required) nonNull)
  {t : TypeDef} {fields : List FieldDef} (body : t.body = .object fields)
  (known : x.schema.catalog.type? f.type.name = some t) (inner : x.schema.Inner t)
  (listed : Listed (m.path ++ [.field head.key]) m.run.marks) {ids : List Datum}
  (asked : Given m head arguments argument (found m.run.store table shape.entry) ids)
  (unmarked : ∀ i d o, ids[i]? = some d → found m.run.store table shape.entry d = some o →
    markAt m.run.marks (m.element head i) = none)

include kind type body known inner listed asked unmarked

-- The elements are what they show by themselves, in turn.
theorem rows_yield (children : List Node) :
    let shown := Exec.oneByOne ((ids.map fun d =>
      Link.of (.ok (found m.run.store table shape.entry d))).mapIdx
        (Direct.shown m.run.store head.loc (!required) (m.path ++ [.field head.key])
          fun p o => some <$> x.shown children t o p))
    x.Shows m head f children (shown.1.map (some ∘ .list), shown.2) := by
  refine invokes.shows calm.built fun calls => ?_
  obtain ⟨marks, ran, marked⟩ := root_list kind asked.given asked.readable
    (m.path ++ [.field head.key]) head.loc { m.run with calls }
  rw [served_ok (resolver_root memory ran m.parent), type]
  refine calm.list_yields body known inner children marked (fun i q below => ?_) (fun i o there => ?_)
    rfl nonNull
  · obtain ⟨s, rest, rfl⟩ := below
    exact listed.below (.index i) (List.cons_ne_nil s rest)
  · rw [List.getElem?_map] at there
    obtain ⟨d, member, row⟩ := Option.map_eq_some_iff.mp there
    refine unmarked i d o member ?_
    change Link.of (.ok (found m.run.store table shape.entry d)) = _ at row
    cases given : found m.run.store table shape.entry d with
    | none => rw [given] at row; cases row
    | some o' => rw [given] at row; exact congrArg some (Link.row.inj row)

theorem lenient_rows (lenient : required = false) (children : List Node) :
    let linked := ids.mapIdx fun i d => x.linkedAt t children head.loc m.run.store
      (m.element head i) (.ok (found m.run.store table shape.entry d))
    x.Shows m head f children (.ok (some (.list (linked.map (·.1)))), linked.flatMap (·.2)) := by
  subst lenient
  have shows := rows_yield calm memory invokes kind type body known inner listed asked unmarked children
  simp only [Bool.not_false] at shows
  rw [Direct.oneByOne_linked] at shows
  exact shows

theorem strict_rows (strict : required = true) (children : List Node) :
    let shown := Exec.oneByOne (ids.mapIdx fun i d => x.neededAt t children m.run.store
      (m.element head i) (found m.run.store table shape.entry d))
    x.Shows m head f children (shown.1.map (some ∘ .list), shown.2) := by
  subst strict
  have shows := rows_yield calm memory invokes kind type body known inner listed asked unmarked children
  simp only [Bool.not_true] at shows
  rw [Direct.oneByOne_needed] at shows
  exact shows

end

end Execution

namespace Execution.Shows

variable {σ : Type} {x : Execution σ} {m : Moment σ} {head : FieldHead} {f : FieldDef}
  {children : List Node} {e : ResponseError} {es : List ResponseError}

-- An error that leaves a field makes it null, if it may be null.
theorem nulls (shows : x.Shows m head f children (.error e, es)) (nullable : f.type.nullable = true) :
    Yields m.run (.ok [(head.key, .null)], es ++ [Exec.located (m.path ++ [.field head.key]) e])
      (x.selection m.type m.parent m.path (.field head children) m.run) := by
  unfold Shows Exec.settled at shows
  rw [nullable] at shows
  exact shows

-- Otherwise it is the end of the operation, if the field is one of the root.
theorem ends (shows : x.Shows m head f children (.error e, es)) (needed : f.type.nullable = false)
    {root : TypeDef} {nodes rest : List Node} {store : σ} (reaches : x.Reaches root nodes store m)
    (top : m.path = []) (now : m.nodes = .field head children :: rest) :
    (x.run root nodes store).1 = ⟨.null, Exec.located (m.path ++ [.field head.key]) e ::
      (m.run.caught ++ (m.run.absorbed ++ es))⟩ := by
  have leaves : Yields m.run (.error (Exec.located (m.path ++ [.field head.key]) e), es)
      (x.selection m.type m.parent m.path (.field head children) m.run) := by
    unfold Shows Exec.settled at shows
    rw [needed] at shows
    exact shows
  generalize left : x.selection m.type m.parent m.path (.field head children) m.run = w at leaves
  obtain ⟨own, run⟩ := w
  obtain ⟨rfl, absorbed, caught, _⟩ := leaves
  have stopped : x.selections m.type m.parent m.path m.nodes m.run =
      (.error (Exec.located (m.path ++ [.field head.key]) e), run) := by
    rw [now, Execution.selections, bind_apply, left]
  unfold Execution.run
  rw [ExceptT.run, reaches.stops top stopped, ← absorbed, ← caught]

end Execution.Shows

-- Wherever an execution comes to a lookup by ids, it shows the rows id by id.
theorem lookups_in_order {x : Execution Memory} (built : x.schema.Built)
    (memory : x.backend = Memory.backend) {root : TypeDef} {kind : OperationKind}
    (known : (x.schema.catalog.root? kind).bind x.schema.catalog.type? = some root)
    {nodes : List Node} {start : Memory} {m : Moment Memory} (reaches : x.Reaches root nodes start m)
    {head : FieldHead} {f : FieldDef} {arguments : Arguments} {argument table : String}
    {shape : FieldShape} {required : Bool} (lists : shape.kind = .referenceList table required)
    (invokes : x.Invokes m head f arguments (.root argument shape)) (children : List Node) :
    ∃ t, x.Lookups root nodes start m head f children argument table shape required arguments
      (found m.run.store table shape.entry) t := by
  have calm : x.Calm := ⟨built, memory ▸ Memory.still⟩
  obtain ⟨_, _, rooted⟩ := Option.bind_eq_some_iff.mp known
  have sound := calm.reaches_sound (Catalog.type?_name rooted) reaches
  have named := sound.known (Catalog.type?_name rooted)
  -- Only fields of the root are resolved like this.
  have top : m.path = [] := by
    cases sound with
    | root _ top _ _ => exact top
    | inner inner _ _ => cases built.grounded.local_of_inner inner invokes.resolves
  have grounded := built.grounded
  have classified := grounded.classified named invokes.declared invokes.resolves rfl
  obtain ⟨entry, t, fields, shown, body, inner⟩ := grounded.rows named invokes.declared
    invokes.resolves rfl (by simp [lists])
  have type := FieldShape.classify_references classified lists
  have listed := sound.listed head.key
  have unmarked {ids : List Datum}
      (asked : Execution.Given m head arguments argument (found m.run.store table shape.entry) ids)
      (i : Nat) (d : Datum) (o : Outcome) (there : ids[i]? = some d)
      (row : found m.run.store table shape.entry d = some o) :
      markAt m.run.marks (m.element head i) = none :=
    asked.unspoilt i d o there row top (List.cons_ne_nil _ _)
  have strict (ids : List Datum)
      (asked : Execution.Given m head arguments argument (found m.run.store table shape.entry) ids)
      (strict : required = true) :=
    Execution.strict_rows calm memory invokes lists type body shown inner listed asked
      (unmarked asked) strict children
  refine ⟨t, type, shown, ?_, rfl, ?_, ?_, ?_, ?_, strict, ?_, ?_, ?_⟩
  · intro d id asked
    unfold found
    rw [asked, Option.bind_some]
  · exact fun ids asked lenient => Execution.lenient_rows calm memory invokes lists type body shown
      inner listed asked (unmarked asked) lenient children
  · intro i d none
    rw [none]
    rfl
  · exact fun i d => Execution.linkedAt_placed built inner children head.loc m.run.store _ _
  · intro head' f' arguments' argument' shape' d invokes' kind' alike nullable given
    have classified' := grounded.classified named invokes'.declared invokes'.resolves rfl
    obtain ⟨entry', _⟩ := grounded.rows named invokes'.declared invokes'.resolves rfl
      (by simp [kind'])
    have same : shape'.entry = shape.entry := by rw [entry, entry', alike]
    have type' := FieldShape.classify_reference classified' kind'
    exact Execution.single_row memory invokes' built kind' type' nullable body (alike ▸ shown) same given
      children
  · intro ids asked needed i d there none before e
    have failed := strict ids asked needed
    have stops : Exec.oneByOne (ids.mapIdx fun i d => x.neededAt t children m.run.store
        (m.element head i) (found m.run.store table shape.entry d)) = (.error e, []) := by
      refine Exec.oneByOne_stops (i := i) ?_ fun j below => ?_
      · rw [List.getElem?_mapIdx, there, Option.map_some, none]
        rfl
      · obtain ⟨inside, _⟩ := List.getElem?_eq_some_iff.mp there
        have there' : ids[j]? = some ids[j] := List.getElem?_eq_getElem (below.trans inside)
        obtain ⟨o, data, row, shows⟩ := before j below ids[j] there'
        refine ⟨data, ?_⟩
        rw [List.getElem?_mapIdx, there', Option.map_some, row]
        exact congrArg some shows
    rw [stops] at failed
    have placed : Exec.located (m.path ++ [.field head.key]) e = e :=
      if_neg (by simp [e, Moment.element])
    refine ⟨fun nullable => ?_, fun needed rest now => ?_⟩
    · have nulls := Execution.Shows.nulls failed nullable
      rw [placed] at nulls
      exact nulls
    · have ends := Execution.Shows.ends failed needed reaches top now
      rw [placed, List.append_nil] at ends
      exact ends
  · exact Execution.absent_yields calm memory invokes (by simp [lists]) type
  · exact fun absent _ b here loc run => root_absent b (by simp [lists]) absent here loc run

-- Two lists of books by their ids, in one of which every book must be there.
def lookups : String :=
  Overview.ask "type Query" ["books(ids: [ID]): [Book]", "strict(ids: [ID!]!): [Book!]!"] ++
    Overview.ask "type Book" ["title: String"]

def lookupShape (required nonNull : Bool) : FieldShape :=
  ⟨.referenceList "Book" required, nonNull, false⟩

def lookupHead (name : String) (ids : List Literal) : FieldHead :=
  ⟨none, name, [⟨"ids", .list ids, ⟨1, 10⟩, ⟨1, 15⟩⟩], [], ⟨1, 3⟩⟩

def emma : Outcome := .row [("id", .string "2"), ("title", .string "Emma")]

theorem books_looked_up_in_order : ∃ (s : Schema) (root t : TypeDef) (f g : FieldDef), s.Built ∧
    let x : Execution Memory := ⟨s, Memory.backend, [], []⟩
    let books := lookupHead "books" [.string "2", .null, .string "9", .number (.int 2)]
    let strict := lookupHead "strict" [.string "2", .string "9", .string "8"]
    let start (head : FieldHead) : Moment Memory :=
      ⟨root, .root, [], [.field head [titleNode]], { store := strictStore }⟩
    let ids : List Datum := [.string "2", .null, .string "9", .number (.int 2)]
    let r := found strictStore "Book" false
    ids.map r = [some emma, none, none, some emma] ∧
      (let linked := ids.mapIdx fun i d =>
        x.linkedAt t [titleNode] books.loc strictStore [.field "books", .index i] (.ok (r d))
      x.Shows (start books) books f [titleNode]
        (.ok (some (.list (linked.map (·.1)))), linked.flatMap (·.2))) ∧
      g.type.nullable = false ∧
      (x.run root [.field strict [titleNode]] strictStore).1 =
        ⟨.null, [{ Exec.missingElement with path := [.field "strict", .index 1] }]⟩ := by
  have ready : (Session.build {} lookups []).toOption.any (fun s =>
      ((s.catalog.root? .query).bind s.catalog.type?).any fun root =>
      (s.catalog.type? "Book").any fun t =>
      (root.field? "books").any fun f => (root.field? "strict").any fun g => decide (
        f.type.name = "Book" ∧ g.type.name = "Book" ∧ g.type.nullable = false ∧
        FieldMap.get? s.resolvers root.name "books" = some (.root "ids" (lookupShape false false)) ∧
        FieldMap.get? s.resolvers root.name "strict" = some (.root "ids" (lookupShape true true)) ∧
        ((⟨s, Memory.backend, [], []⟩ : Execution Memory).rowAt t [titleNode] strictStore false
          [.field "strict", .index 0] emma).2 = [] ∧
        ((⟨s, Memory.backend, [], []⟩ : Execution Memory).rowAt t [titleNode] strictStore false
          [.field "strict", .index 0] emma).1.toOption.isSome = true)) = true := by
    rw [Session.build_toList]
    simp only [lookups, String.toList_append, Overview.toList_ask]
    decide +kernel
  obtain ⟨s, made, ready⟩ := (Option.any_eq_true _ _).mp ready
  obtain ⟨root, known, ready⟩ := (Option.any_eq_true _ _).mp ready
  obtain ⟨t, found, ready⟩ := (Option.any_eq_true _ _).mp ready
  obtain ⟨f, declared, ready⟩ := (Option.any_eq_true _ _).mp ready
  obtain ⟨g, declared', ready⟩ := (Option.any_eq_true _ _).mp ready
  obtain ⟨book, book', needed, resolves, resolves', quiet, shown⟩ := of_decide_eq_true ready
  let x : Execution Memory := ⟨s, Memory.backend, [], []⟩
  let books := lookupHead "books" [.string "2", .null, .string "9", .number (.int 2)]
  let strict := lookupHead "strict" [.string "2", .string "9", .string "8"]
  have accepted := ok_of_toOption made
  have plain : x.Plain :=
    ⟨⟨{}, lookups, [], accepted⟩, Schema.hookless_of_build accepted, Memory.still⟩
  have allowed (type field : String) (arguments : Arguments) :
      s.refusal? type field arguments = none := by
    unfold Schema.refusal?
    rw [plain.hookless]
    rfl
  let start (head : FieldHead) : Moment Memory :=
    ⟨root, .root, [], [.field head [titleNode]], { store := strictStore }⟩
  have unspoilt {head : FieldHead} {i : Nat} : Execution.Unspoilt (start head) head [.index i] :=
    fun _ _ => rfl
  have invokes : x.Invokes (start books) books f (Execution.withDefaults f.arguments
      [("ids", .list [.string "2", .null, .string "9", .number (.int 2)])])
      (.root "ids" (lookupShape false false)) := ⟨declared, resolves, rfl, allowed _ _ _⟩
  have invokes' : x.Invokes (start strict) strict g (Execution.withDefaults g.arguments
      [("ids", .list [.string "2", .string "9", .string "8"])])
      (.root "ids" (lookupShape true true)) := ⟨declared', resolves', rfl, allowed _ _ _⟩
  obtain ⟨t', looked⟩ :=
    lookups_in_order plain.built rfl known .refl rfl invokes [titleNode]
  obtain ⟨t'', strictly⟩ :=
    lookups_in_order plain.built rfl known .refl rfl invokes' [titleNode]
  obtain rfl := Option.some.inj (found.symm.trans (book ▸ looked.shown))
  obtain rfl := Option.some.inj (found.symm.trans (book' ▸ strictly.shown))
  obtain ⟨data, first⟩ : ∃ data, x.rowAt t [titleNode] strictStore false
      [.field "strict", .index 0] emma = (.ok data, []) := by
    rcases ran : x.rowAt t [titleNode] strictStore false [.field "strict", .index 0] emma with
      ⟨result, es⟩
    rw [ran] at quiet shown
    obtain rfl := quiet
    cases result with
    | error e => cases shown
    | ok data => exact ⟨data, rfl⟩
  refine ⟨s, root, t, f, g, plain.built, rfl, ?_, needed, ?_⟩
  · exact looked.lenient _ ⟨rfl, by decide, fun _ _ _ _ _ => unspoilt⟩ rfl
  · refine (strictly.missing _ ⟨rfl, by decide, fun _ _ _ _ _ => unspoilt⟩ rfl 1 _ rfl rfl
      fun j below d there => ?_).2 needed [] rfl
    obtain rfl : j = 0 := by omega
    obtain rfl := Option.some.inj there
    exact ⟨emma, data, rfl, first⟩

end RowGraph
