import RowGraph.Proofs.Placement.Moments
import RowGraph.Proofs.Placement.Rows
import RowGraph.Proofs.Response.Walk
/-!
The ways to a row: a field of the root that takes its id, or its id among others, and a reference
column that holds its id, or its id among others; each where the position may be null. Main
statement: alike selections on one row show the same, with the same errors, on whatever ways the
row is reached.
-/

namespace RowGraph

variable {σ : Type}

-- The same error at another position, for a text that stands elsewhere.
structure ResponseError.Relocated (p p' : Path) (move : Location → Location)
    (e e' : ResponseError) : Prop where
  message : e'.message = e.message
  code : e'.code = e.code
  locations : e'.locations = e.locations.map move
  path : ∃ u, e.path = p ++ u ∧ e'.path = p' ++ u

theorem Pairing.Echo.relocated {k : Pairing} {e e' : ResponseError} (echo : k.Echo e e')
    (placed : k.here <+: e.path) (position : k.here ≠ []) :
    e.Relocated k.here k.there k.move e' := by
  refine ⟨echo.message, echo.code, echo.locations, ?_⟩
  have faces := echo.path
  generalize e.path = p at faces placed ⊢
  generalize e'.path = p' at faces ⊢
  cases faces with
  | unplaced => exact absurd (List.prefix_nil.mp placed) position
  | placed u _ _ => exact ⟨u, rfl, rfl⟩

-- The data and the errors of a position that may be null, from a state in which nothing waits inside
-- of it.
inductive Exec.Alone (store : σ) (p : Path) (x : Exec σ (Option Datum)) :
    Datum → List ResponseError → Prop where
  | intro {d : Option Datum} {r r' : Run σ} : r.store = store →
      (∀ u, Inward u → markAt r.marks (p ++ u) = none) → Exec.guard p true x r = (.ok d, r') →
      Alone store p x (d.getD .null) (errorsAt p r r')

-- What goes alike at two positions gives the same data, and errors that only are elsewhere.
theorem Exec.Alone.alike {store : σ} {k : Pairing} (here : k.here ≠ []) (there : k.there ≠ [])
    {x x' : Exec σ (Option Datum)} (parallel : k.Parallel k.Echo x x') {d d' : Datum}
    {es es' : List ResponseError} (alone : Exec.Alone store k.here x d es)
    (alone' : Exec.Alone store k.there x' d' es') :
    d' = d ∧ List.Forall₂ (ResponseError.Relocated k.here k.there k.move) es es' := by
  cases alone with
  | @intro d r r₁ kept free ran =>
  cases alone' with
  | @intro d' r' r₁' kept' free' ran' =>
    have abreast : k.Abreast r r' := by
      refine ⟨kept'.trans kept.symm, fun u inward => ?_⟩
      rw [free u inward, free' u inward]
      exact .none
    have enters : k.Enters [] := ⟨by simpa using here, by simpa using there⟩
    have meets := Pairing.Parallel.guard enters true parallel r r' abreast
    rw [List.append_nil, List.append_nil, ran, ran'] at meets
    obtain ⟨es, es', adds, adds', echoes⟩ := meets.errors
    rw [errorsAt_adds adds, errorsAt_adds adds']
    refine ⟨?_, ?_⟩
    · cases meets.result with
      | ok d => rfl
    · have placed := adds.placed
      clear adds adds'
      induction echoes with
      | nil => exact .nil
      | cons echo _ ih =>
        refine .cons (echo.relocated (placed _ List.mem_cons_self) here) ?_
        exact ih fun e member => placed e (List.mem_cons_of_mem _ member)

namespace Resolve

-- A resolver is asked for a row, and shows it at a spot of what it hands on: as the whole of it, or
-- as an element of its list.
inductive Asked (key : Key) (parent : Outcome) (arguments : Arguments) : Resolver → Path → Prop where
  | row {argument : String} {shape : FieldShape} {d : Datum} :
      shape.kind = .reference key.table → shape.nonNull = false →
      argument? arguments argument = some d → idOfDatum? d = some key.id →
      Asked key parent arguments (.root argument shape) []
  | rows {argument : String} {shape : FieldShape} {ids : List Datum} {i : Nat} {d : Datum} :
      shape.kind = .referenceList key.table false →
      argument? arguments argument = some (.list ids) →
      (∀ d ∈ ids, d.isNull = true ∨ (idOfDatum? d).isSome = true) →
      ids[i]? = some d → idOfDatum? d = some key.id →
      Asked key parent arguments (.root argument shape) [.index i]
  | column {column : String} {shape : FieldShape} {row : Row} {v : Value} :
      shape.kind = .reference key.table → shape.nonNull = false →
      parent = .row row → stored? row column = some v → RowId.ofValue? v = some key.id →
      Asked key parent arguments (.reference column shape) []
  | columns {column : String} {shape : FieldShape} {row : Row} {items : List Value} {i : Nat}
      {v : Value} :
      shape.kind = .referenceList key.table false →
      parent = .row row → stored? row column = some (.array items) →
      items[i]? = some v → RowId.ofValue? v = some key.id →
      Asked key parent arguments (.reference column shape) [.index i]

-- The row is at the spot, in a value of the type of the field, and its own place is as it was.
inductive Handed (o : Outcome) (here : Path) (r : Run σ) :
    TypeExpr → Path → Outcome → Run σ → Prop where
  | whole {name : String} : Handed o here r (.named name false) [] o r
  | element {name : String} {nonNull : Bool} {os : List Outcome} {i : Nat} {r' : Run σ} :
      os[i]? = some o → Untouched (here ++ [.index i]) r r' →
      Handed o here r (.list (.named name false) nonNull) [.index i] (.list os) r'

theorem Asked.shaped {key : Key} {parent : Outcome} {arguments : Arguments} {resolver : Resolver}
    {spot : Path} (asked : Asked key parent arguments resolver spot) :
    ∃ shape, resolver.shape? = some shape ∧ shape.kind ≠ .scalar := by
  cases asked with
  | row kind _ _ _ => exact ⟨_, rfl, by simp [kind]⟩
  | rows kind _ _ _ _ => exact ⟨_, rfl, by simp [kind]⟩
  | column kind _ _ _ _ => exact ⟨_, rfl, by simp [kind]⟩
  | columns kind _ _ _ _ => exact ⟨_, rfl, by simp [kind]⟩

-- A resolver hands on the row that it is asked for.
theorem Asked.hands {x : Execution Memory} (memory : x.backend = Memory.backend) {key : Key}
    {parent : Outcome} {arguments : Arguments} {resolver : Resolver} {spot : Path}
    (asked : Asked key parent arguments resolver spot) {shape : FieldShape}
    (shaped : resolver.shape? = some shape) {lookup : TypeLookup} {type : TypeExpr}
    (classified : FieldShape.classify lookup type = .ok shape) {r : Run Memory} {e : Entry}
    (stored : r.store.get? key = some e) (here : Path) (loc : Location) :
    ∃ given r', x.resolver here loc arguments parent resolver r = (.ok (some given), r') ∧
      Handed (e.outcome shape.entry) here r type spot given r' := by
  have whole (kind : shape.kind = .reference key.table) (free : shape.nonNull = false) :
      Handed (e.outcome shape.entry) here r type [] (e.outcome shape.entry) r := by
    rw [FieldShape.classify_reference classified kind, ← FieldShape.classify_nonNull classified, free]
    exact .whole
  have element (kind : shape.kind = .referenceList key.table false) {os : List Outcome} {i : Nat}
      {r' : Run Memory} (shown : os[i]? = some (e.outcome shape.entry))
      (untouched : Untouched (here ++ [.index i]) r r') :
      Handed (e.outcome shape.entry) here r type [.index i] (.list os) r' := by
    rw [FieldShape.classify_references classified kind]
    exact .element shown untouched
  cases asked with
  | row kind free given id =>
    obtain rfl := Option.some.inj shaped
    refine ⟨_, r, ?_, whole kind free⟩
    change root x.backend _ _ here loc arguments r = _
    rw [memory, root_row stored here loc kind given id]
  | rows kind given readable there id =>
    obtain rfl := Option.some.inj shaped
    obtain ⟨os, r', ran, shown, untouched⟩ := root_rows stored here loc kind given readable there id
    refine ⟨.list os, r', ?_, element kind shown untouched⟩
    change root x.backend _ _ here loc arguments r = _
    rw [memory, ran]
  | column kind free parent there id =>
    obtain rfl := Option.some.inj shaped
    obtain rfl := parent
    refine ⟨_, r, ?_, whole kind free⟩
    change reference x.backend _ _ here loc _ r = _
    rw [memory, reference_row stored here loc kind there id]
  | columns kind parent there member id =>
    obtain rfl := Option.some.inj shaped
    obtain rfl := parent
    obtain ⟨os, r', ran, shown, untouched⟩ := reference_rows stored here loc kind there member id
    refine ⟨.list os, r', ?_, element kind shown untouched⟩
    change reference x.backend _ _ here loc _ r = _
    rw [memory, ran]

section

variable {c : Catalog} {t : TypeDef} {fields : List FieldDef} (body : t.body = .object fields)
  {object : Complete.ObjectData σ} (confined : ∀ o p, Exec.Confined p (object t o p))

include body

theorem outcome_object {name : String} (found : c.type? name = some t) (loc : Location) (p : Path)
    (o : Outcome) :
    Complete.outcome c object loc (.named name false) p (some o) = some <$> object t o p := by
  unfold Complete.outcome Complete.value
  rw [found]
  simp only [body]

include confined

theorem outcome_confined {name : String} (found : c.type? name = some t) (loc : Location) (p : Path)
    (o : Outcome) :
    Exec.Confined p (Complete.outcome c object loc (.named name false) p (some o)) := by
  rw [outcome_object body found]
  exact (confined o p).map some

variable {o : Outcome} {here : Path} {r r₁ : Run σ} {type : TypeExpr} {spot : Path} {given : Outcome}
  (handed : Handed o here r type spot given r₁) (found : c.type? type.name = some t)
  (listed : Listed here r₁.marks) (unmarked : spot ≠ [] → markAt r.marks (here ++ spot) = none)
  (loc : Location)

include handed found listed unmarked

-- What is handed on for a row shows the row at its spot as it is by itself.
theorem Handed.shows : ∃ whole r' d es, Exec.guard here type.nullable
      (Complete.outcome c object loc type here (some given)) r₁ = (.ok whole, r') ∧
    (whole.getD .null).at? spot = some d ∧ errorsAt (here ++ spot) r r' = es ∧
    Exec.Alone r.store (here ++ spot) (some <$> object t o (here ++ spot)) d es := by
  cases handed with
  | @whole name =>
    have found : c.type? name = some t := found
    rw [outcome_object body found, List.append_nil]
    obtain ⟨d, r', ran⟩ := Exec.guard_nullable here (some <$> object t o here) r
    exact ⟨d, r', _, _, ran, rfl, rfl, .intro rfl (fun u => listed.inward) ran⟩
  | @element name nonNull os i _ there untouched =>
    have found : c.type? name = some t := found
    obtain ⟨ds, r', r₂, d, r₃, ran, placed, kept, marks, alone, errors⟩ :=
      elements_at (fun p o _ => outcome_confined body confined found loc p o) os 0 r₁
        (fun j _ => listed.loose (.index j)) there
    rw [Nat.zero_add] at marks alone errors
    have free : markAt r₂.marks (here ++ [.index i]) = none := by
      have same := marks []
      rw [List.append_nil] at same
      rw [same, untouched.mark]
      exact unmarked (List.cons_ne_nil _ _)
    rw [Exec.element_unmarked free, outcome_object body found] at alone
    refine ⟨some (.list ds), r', _, _, ?_, ?_, ?_,
      .intro (kept.trans untouched.store) (fun u inward => ?_) alone⟩
    · have value : Complete.outcome c object loc (.list (.named name false) nonNull) here
          (some (.list os)) r₁ = (.ok (some (.list ds)), r') := by
        unfold Complete.outcome
        simp only
        rw [map_eq_pure_bind, bind_apply]
        exact ran ▸ rfl
      unfold Exec.guard
      rw [value]
    · change ds[i]?.bind (Datum.at? []) = _
      rw [placed]
      rfl
    · rw [← errors]
      unfold errorsAt
      rw [untouched.absorbed]
    · rw [marks]
      exact listed.below (.index i) inward.ne

-- From there the fields of the row are entered.
theorem Handed.arrives :
    ∃ r', Arrives c object loc type here given r₁ t o (here ++ spot) r' ∧ r'.store = r.store := by
  cases handed with
  | whole =>
    rw [List.append_nil]
    exact ⟨r, .object found, rfl⟩
  | @element name nonNull os i _ there untouched =>
    have found : c.type? name = some t := found
    obtain ⟨before, after, rfl, rfl⟩ : ∃ before after, os = before ++ o :: after ∧
        before.length = i := by
      obtain ⟨inside, rfl⟩ := List.getElem?_eq_some_iff.mp there
      refine ⟨os.take i, os.drop (i + 1), ?_, List.length_take_of_le (Nat.le_of_lt inside)⟩
      rw [List.getElem_cons_drop, List.take_append_drop]
    obtain ⟨ds, r₂, es, ran, spread⟩ :=
      elements_spread (fun p o _ => outcome_confined body confined found loc p o) before 0 r₁
        (fun j _ => listed.loose (.index j))
    have free : markAt r₂.marks (here ++ [.index before.length]) = none := by
      have same := spread.marks (.inr (Nat.le_of_eq (Nat.zero_add _))) []
      rw [List.append_nil] at same
      rw [same, untouched.mark]
      exact unmarked (List.cons_ne_nil _ _)
    have taken : Exec.takeMark (here ++ [.index before.length]) r₂ = (none, r₂) := by
      unfold Exec.takeMark
      rw [Option.map_eq_none_iff.mp free]
    exact ⟨r₂, .element rfl ran taken (.object found), spread.store.trans untouched.store⟩

end

end Resolve

namespace Execution

-- What a field of an object shows at a spot, and the errors there.
def showsAt (x : Execution σ) (m : Moment σ) (head : FieldHead) (children : List Node) (spot : Path) :
    Option (Datum × List ResponseError) :=
  match x.selection m.type m.parent m.path (.field head children) m.run with
  | (.ok results, r) => ((Datum.ofResults results).at? (.field head.key :: spot)).map fun d =>
      (d, errorsAt (m.path ++ [.field head.key] ++ spot) m.run r)
  | (.error _, _) => none

-- At a moment a field leads to a row, which is shown as an object of the named type.
inductive Way (x : Execution Memory) (name : String) (key : Key) (m : Moment Memory)
    (head : FieldHead) (spot : Path) : Prop where
  | intro {f : FieldDef} {given : Arguments} {resolver : Resolver} :
      m.type.field? head.name = some f → f.type.name = name →
      FieldMap.get? x.schema.resolvers m.type.name head.name = some resolver →
      x.givenArguments head.arguments = .ok given →
      Resolve.Asked key m.parent (withDefaults f.arguments given) resolver spot →
      Way x name key m head spot

-- No mark that was set for another list waits at an element of a root field.
def Unspoilt (m : Moment σ) (head : FieldHead) (spot : Path) : Prop :=
  m.path = [] → spot ≠ [] → markAt m.run.marks (m.path ++ [.field head.key] ++ spot) = none

theorem Unspoilt.unmarked {x : Execution σ} {root : TypeDef} {store : σ} {m : Moment σ}
    {head : FieldHead} {spot : Path} (unspoilt : Unspoilt m head spot) (sound : m.Sound x root store)
    (inside : spot ≠ []) : markAt m.run.marks (m.path ++ [.field head.key] ++ spot) = none := by
  cases sound with
  | root _ top _ _ => exact unspoilt top inside
  | inner _ _ listed => exact listed.below (.field head.key) inside

-- A field is left to its resolver.
theorem Plain.resolved {x : Execution σ} (plain : x.Plain) {type : TypeDef} {head : FieldHead}
    {f : FieldDef} {resolver : Resolver} {given : Arguments}
    (declared : type.field? head.name = some f)
    (resolves : FieldMap.get? x.schema.resolvers type.name head.name = some resolver)
    (read : x.givenArguments head.arguments = .ok given) {parent o : Outcome} {here : Path}
    {r r₁ : Run σ} (ran : x.resolver here head.loc (withDefaults f.arguments given) parent
      resolver r = (.ok (some o), r₁)) :
    x.arguments f head r = (.ok (withDefaults f.arguments given), r) ∧
      x.declaredField type.name f.name here head.loc (withDefaults f.arguments given) parent r =
        (.ok (some o), r₁) := by
  have named : f.name = head.name := by simpa using List.find?_some declared
  refine ⟨?_, ?_⟩
  · unfold arguments
    rw [read]
    rfl
  · rw [plain.declaredField_apply, named, resolves]
    simp only
    rw [adapt_apply, ran]
    rfl

theorem Plain.selection_resolved {x : Execution σ} (plain : x.Plain) {type : TypeDef}
    {head : FieldHead} {f : FieldDef} {resolver : Resolver} {given : Arguments}
    (declared : type.field? head.name = some f)
    (resolves : FieldMap.get? x.schema.resolvers type.name head.name = some resolver)
    (read : x.givenArguments head.arguments = .ok given) {parent o : Outcome} {path : Path}
    {children : List Node} {r r₁ r' : Run σ} {d : Option Datum}
    (ran : x.resolver (path ++ [.field head.key]) head.loc (withDefaults f.arguments given) parent
      resolver r = (.ok (some o), r₁))
    (shows : Exec.guard (path ++ [.field head.key]) f.type.nullable
      (Complete.outcome x.schema.catalog (x.shown children) head.loc f.type
        (path ++ [.field head.key]) (some o)) r₁ = (.ok d, r')) :
    x.selection type parent path (.field head children) r =
      (.ok [(head.key, d.getD .null)], r') := by
  obtain ⟨name, aside⟩ := plain.built.declared_field type resolves
  obtain ⟨arguments, delivered⟩ := plain.resolved declared resolves read ran
  have whole : x.field type parent path head (x.shown children) f r = (.ok d, r') := by
    unfold field
    rw [bind_apply, arguments]
    unfold Exec.guard at shows ⊢
    simp only
    rw [bind_apply, delivered]
    exact shows
  rw [selection, if_neg name, show x.entrance? type head.name = none from aside, declared]
  simp only
  unfold shown at whole
  rw [bind_apply, whole]
  rfl

-- What a way comes to: a value of its field with the row in it, which is an object of a type.
inductive Arrival (x : Execution Memory) (m : Moment Memory) (head : FieldHead) (spot : Path)
    (row : Outcome) (t : TypeDef) : Prop where
  | intro {f : FieldDef} {resolver : Resolver} {given : Arguments} {o : Outcome} {r : Run Memory}
      {fields : List FieldDef} : m.type.field? head.name = some f →
      FieldMap.get? x.schema.resolvers m.type.name head.name = some resolver →
      x.givenArguments head.arguments = .ok given →
      x.resolver (m.path ++ [.field head.key]) head.loc (withDefaults f.arguments given) m.parent
        resolver m.run = (.ok (some o), r) →
      Resolve.Handed row (m.path ++ [.field head.key]) m.run f.type spot o r →
      x.schema.catalog.type? f.type.name = some t → t.body = .object fields →
      Arrival x m head spot row t

section

variable {x : Execution Memory} (plain : x.Plain) {m : Moment Memory} {head : FieldHead} {spot : Path}

include plain

theorem Way.arrival (memory : x.backend = Memory.backend) {name : String} {key : Key}
    (way : x.Way name key m head spot)
    (known : x.schema.catalog.type? m.type.name = some m.type) {e : Entry}
    (stored : m.run.store.get? key = some e) :
    ∃ t, x.schema.catalog.type? name = some t ∧ x.schema.Inner t ∧
      x.Arrival m head spot (e.outcome (x.schema.showsEntries name)) t := by
  have grounded := plain.built.grounded
  obtain ⟨declared, rfl, resolves, read, asked⟩ := way
  obtain ⟨shape, shaped, rows⟩ := asked.shaped
  have classified := grounded.classified known declared resolves shaped
  obtain ⟨form, t, fields, found, body, inner⟩ :=
    grounded.rows known declared resolves shaped rows
  obtain ⟨o, r, ran, handed⟩ := asked.hands memory shaped classified stored
    (m.path ++ [.field head.key]) head.loc
  exact ⟨t, found, inner, .intro declared resolves read ran (form ▸ handed) found body⟩

variable {root t : TypeDef} {store : Memory} {row : Outcome} (arrival : x.Arrival m head spot row t)
  (sound : m.Sound x root store) (unspoilt : Unspoilt m head spot) (inner : x.schema.Inner t)
  (children : List Node)

theorem shown_confined {t : TypeDef} (inner : x.schema.Inner t) (children : List Node) (o : Outcome)
    (p : Path) : Exec.Confined p (x.shown children t o p) := by
  have alike := plain.twin.selections (k := ⟨p, p, id⟩) inner o (.inl rfl)
    (CopiesAll.refl x children)
  rw [List.append_nil] at alike
  exact alike.map _

include arrival sound unspoilt inner

-- What a way shows is the row, as an object by itself.
theorem Arrival.alone : ∃ d es, x.showsAt m head children spot = some (d, es) ∧
    Exec.Alone m.run.store (m.path ++ [.field head.key] ++ spot)
      (some <$> x.shown children t row (m.path ++ [.field head.key] ++ spot)) d es := by
  obtain ⟨declared, resolves, read, ran, handed, found, body⟩ := arrival
  rename_i f resolver given o r fields
  have resolved := x.resolver_resolved (m.path ++ [.field head.key]) head.loc
    (withDefaults f.arguments given) m.parent resolver m.run
  rw [ran] at resolved
  obtain ⟨whole, r', d, es, shows, placed, errors, alone⟩ :=
    Resolve.Handed.shows body (shown_confined plain inner children) handed found
      (resolved.listed (sound.listed head.key)) (unspoilt.unmarked sound) head.loc
  refine ⟨d, es, ?_, alone⟩
  unfold showsAt
  rw [plain.selection_resolved declared resolves read ran shows]
  simp only [Datum.at?_result, placed, errors, Option.map_some]

-- The fields of the row are entered from there, with the store as it is.
theorem Arrival.leads (rest : List Node) :
    ∃ r, x.Leads { m with nodes := .field head children :: rest }
        ⟨t, row, m.path ++ [.field head.key] ++ spot, children, r⟩ ∧ r.store = m.run.store := by
  obtain ⟨declared, resolves, read, ran, handed, found, body⟩ := arrival
  rename_i f resolver given o r fields
  have resolved := x.resolver_resolved (m.path ++ [.field head.key]) head.loc
    (withDefaults f.arguments given) m.parent resolver m.run
  rw [ran] at resolved
  obtain ⟨arguments, delivered⟩ := plain.resolved declared resolves read ran
  obtain ⟨r', arrives, kept⟩ :=
    Resolve.Handed.arrives body (shown_confined plain inner children) handed found
      (resolved.listed (sound.listed head.key)) (unspoilt.unmarked sound) head.loc
  exact ⟨r', .inside (plain.built.declared_field m.type resolves).2 declared arguments delivered
    arrives, kept⟩

end

end Execution

-- Alike selections on one row show the same wherever the row is reached, and their errors differ only
-- by where they are.
theorem rows_shown_alike {x x' : Execution Memory} (twins : Twins x x')
    (memory : x.backend = Memory.backend) {kind kind' : OperationKind} {root root' : TypeDef}
    (known : (x.schema.catalog.root? kind).bind x.schema.catalog.type? = some root)
    (known' : (x.schema.catalog.root? kind').bind x.schema.catalog.type? = some root')
    {nodes nodes' : List Node} {start start' : Memory} {m m' : Moment Memory}
    (reaches : x.Reaches root nodes start m) (reaches' : x'.Reaches root' nodes' start' m')
    (same : m'.run.store = m.run.store) {key : Key} {e : Entry}
    (stored : m.run.store.get? key = some e) {name : String} {head head' : FieldHead}
    {spot spot' : Path} (way : x.Way name key m head spot) (way' : x'.Way name key m' head' spot')
    (unspoilt : Execution.Unspoilt m head spot) (unspoilt' : Execution.Unspoilt m' head' spot')
    {move : Location → Location} {children children' : List Node}
    (copies : CopiesAll x x' move children children') :
    ∃ d es es', x.showsAt m head children spot = some (d, es) ∧
      x'.showsAt m' head' children' spot' = some (d, es') ∧
      List.Forall₂ (ResponseError.Relocated (m.path ++ [.field head.key] ++ spot)
        (m'.path ++ [.field head'.key] ++ spot') move) es es' := by
  have plain := twins.toPlain
  have plain' := twins.plain'
  obtain ⟨_, _, found⟩ := Option.bind_eq_some_iff.mp known
  obtain ⟨_, _, found'⟩ := Option.bind_eq_some_iff.mp known'
  have sound := plain.reaches_sound (Catalog.type?_name found) reaches
  have sound' := plain'.reaches_sound (twins.schema ▸ Catalog.type?_name found') reaches'
  obtain ⟨t, shown, inner, arrival⟩ :=
    way.arrival plain memory (sound.known (Catalog.type?_name found)) stored
  obtain ⟨t', shown', inner', arrival'⟩ := way'.arrival plain' (twins.backend ▸ memory)
    (sound'.known (twins.schema ▸ Catalog.type?_name found')) (same ▸ stored)
  obtain ⟨d, es, shows, alone⟩ := arrival.alone plain sound unspoilt inner children
  obtain ⟨d', es', shows', alone'⟩ := arrival'.alone plain' sound' unspoilt' inner' children'
  rw [twins.schema] at shown' alone'
  obtain rfl := Option.some.inj (shown.symm.trans shown')
  rw [same] at alone'
  let k : Pairing :=
    ⟨m.path ++ [.field head.key] ++ spot, m'.path ++ [.field head'.key] ++ spot', move⟩
  have parallel := twins.selections (k := k) inner (e.outcome (x.schema.showsEntries name))
    (.inl rfl) copies
  rw [List.append_nil, List.append_nil] at parallel
  obtain ⟨rfl, relocated⟩ := alone.alike (k := k) (by simp [k]) (by simp [k])
    ((parallel.map Datum.ofResults).map some) alone'
  exact ⟨d', es, es', shows, shows', relocated⟩

-- A book that comes after itself, and has no title.
def loop : String :=
  Overview.ask "type Query" ["book(id: ID!): Book"] ++
    Overview.ask "type Book" ["title: String!", "next: Book"]

def loopStore : Memory :=
  (Memory.empty.commit ⟨[], [.set ⟨"Book", ⟨"1"⟩⟩ (Row.ofColumns [("next", .string "1")])]⟩).2

def loopShape : FieldShape := ⟨.reference "Book", false, false⟩

def bookHead : FieldHead := ⟨none, "book", [⟨"id", .string "1", ⟨1, 8⟩, ⟨1, 12⟩⟩], [], ⟨1, 3⟩⟩

def nextHead : FieldHead := ⟨none, "next", [], [], ⟨1, 19⟩⟩

def titleNode : Node := .field ⟨none, "title", [], [], ⟨1, 26⟩⟩ []

theorem loop_rows_shown_alike : ∃ (s : Schema) (root : TypeDef) (m : Moment Memory)
    (es es' : List ResponseError), s.Built ∧
    let x : Execution Memory := ⟨s, Memory.backend, [], []⟩
    let start : Moment Memory := ⟨root, .root, [], [], { store := loopStore }⟩
    x.Reaches root [.field bookHead [.field nextHead [titleNode]]] loopStore m ∧
      m.path = [.field "book"] ∧
      x.showsAt start bookHead [titleNode] [] = some (.null, es) ∧
      x.showsAt m nextHead [titleNode] [] = some (.null, es') ∧
      es.map (·.path) = [[.field "book", .field "title"]] ∧
      List.Forall₂ (ResponseError.Relocated [.field "book"] [.field "book", .field "next"] id)
        es es' := by
  have ready : (Session.build {} loop []).toOption.any (fun s =>
      ((s.catalog.root? .query).bind s.catalog.type?).any fun root =>
      (s.catalog.type? "Book").any fun t =>
      (root.field? "book").any fun f => (t.field? "next").any fun g => decide (
        f.type.name = "Book" ∧ g.type.name = "Book" ∧ s.showsEntries "Book" = false ∧
        FieldMap.get? s.resolvers root.name "book" = some (.root "id" loopShape) ∧
        FieldMap.get? s.resolvers t.name "next" = some (.reference "next" loopShape) ∧
        ((⟨s, Memory.backend, [], []⟩ : Execution Memory).showsAt
          ⟨root, .root, [], [], { store := loopStore }⟩ bookHead [titleNode] []).map
            (fun shown => (shown.1.isNull, shown.2.map (·.path))) =
          some (true, [[.field "book", .field "title"]]))) = true := by
    decide +kernel
  have row : (loopStore.get? ⟨"Book", ⟨"1"⟩⟩).any (fun e => decide (
      (Resolve.stored? e.shownRow "next").bind RowId.ofValue? = some ⟨"1"⟩)) = true := by
    decide +kernel
  obtain ⟨s, made, ready⟩ := (Option.any_eq_true _ _).mp ready
  obtain ⟨root, known, ready⟩ := (Option.any_eq_true _ _).mp ready
  obtain ⟨t, found, ready⟩ := (Option.any_eq_true _ _).mp ready
  obtain ⟨f, declared, ready⟩ := (Option.any_eq_true _ _).mp ready
  obtain ⟨g, declared', ready⟩ := (Option.any_eq_true _ _).mp ready
  obtain ⟨book, next, plainly, resolves, resolves', shows⟩ := of_decide_eq_true ready
  obtain ⟨e, stored, holds⟩ := (Option.any_eq_true _ _).mp row
  obtain ⟨v, column, id⟩ := Option.bind_eq_some_iff.mp (of_decide_eq_true holds)
  let x : Execution Memory := ⟨s, Memory.backend, [], []⟩
  let start : Moment Memory := ⟨root, .root, [], [], { store := loopStore }⟩
  have accepted := ok_of_toOption made
  have plain : x.Plain :=
    ⟨⟨{}, loop, [], accepted⟩, Schema.hookless_of_build accepted, Memory.still⟩
  have given : x.givenArguments bookHead.arguments = .ok [("id", .string "1")] := rfl
  have asked : Resolve.argument? (Execution.withDefaults f.arguments [("id", .string "1")]) "id" =
      some (.string "1") := rfl
  have way : x.Way "Book" ⟨"Book", ⟨"1"⟩⟩ start bookHead [] :=
    .intro declared book resolves given (.row rfl rfl asked rfl)
  obtain ⟨_, _, rooted⟩ := Option.bind_eq_some_iff.mp known
  have named := Catalog.type?_name rooted
  have unspoilt {m : Moment Memory} {head : FieldHead} : Execution.Unspoilt m head [] :=
    fun _ inside => absurd rfl inside
  -- The row is come to at the root, and from there by its own reference.
  have sound : start.Sound x root loopStore := plain.reaches_sound named .refl
  obtain ⟨t', found', inner, arrival⟩ := way.arrival plain rfl named stored
  obtain rfl := Option.some.inj (found.symm.trans found')
  obtain ⟨r, leads, kept⟩ :=
    arrival.leads plain sound unspoilt inner [.field nextHead [titleNode]] []
  rw [plainly] at leads
  let inside : Moment Memory :=
    ⟨t, e.outcome false, [.field "book"], [.field nextHead [titleNode]], r⟩
  have reaches : x.Reaches root [.field bookHead [.field nextHead [titleNode]]] loopStore inside :=
    .single leads
  have way' : x.Way "Book" ⟨"Book", ⟨"1"⟩⟩ inside nextHead [] :=
    .intro declared' next resolves' rfl (.column rfl rfl rfl column id)
  obtain ⟨d, es, es', shown, shown', relocated⟩ := rows_shown_alike plain.twin rfl known known
    .refl reaches kept stored way way' unspoilt unspoilt (CopiesAll.refl x [titleNode])
  change (x.showsAt start bookHead [titleNode] []).map _ = _ at shows
  rw [shown] at shows
  obtain ⟨null, paths⟩ := Prod.mk.inj (Option.some.inj shows)
  obtain rfl : d = .null := by
    cases d <;> first | rfl | cases null
  exact ⟨s, root, inside, es, es', plain.built, reaches, rfl, shown, shown', paths, relocated⟩

-- Two books, and a list of books none of which may be missing.
def strictShelf : String :=
  Overview.ask "type Query" ["strict(ids: [ID!]!): [Book!]", "books(ids: [ID!]!): [Book]"] ++
    Overview.ask "type Book" ["id: ID!", "title: String!"]

def strictStore : Memory :=
  (Memory.empty.commit ⟨[], [.set ⟨"Book", ⟨"1"⟩⟩ (Row.ofColumns [("title", .string "Dune")]),
    .set ⟨"Book", ⟨"2"⟩⟩ (Row.ofColumns [("title", .string "Emma")])]⟩).2

def strictRequest : Request :=
  { source := Overview.ask "query" [Overview.ask "k: books(ids: [1, 2])" ["title"],
      Overview.ask "... on Query" [Overview.ask "k: strict(ids: [8, 9])" ["id"]],
      Overview.ask "k: books(ids: [1, 2])" ["id"]] }

-- The strict list fails at its first element. The mark of its second one stays behind, and the last
-- list takes it for its own: the first book has its id, and the second one has not.
example : ((Session.build {} strictShelf []).toOption.bind fun s =>
    (s.execute Memory.backend strictRequest strictStore).response.map fun r =>
      ((r.data.at? [.field "k", .index 0, .field "id"]).isSome,
        (r.data.at? [.field "k", .index 1, .field "id"]).isSome, r.errors.map (·.path))) =
    some (true, false, [[.field "k", .index 0]]) := by
  decide +kernel

end RowGraph
