import RowGraph.Proofs.Propagation.Sending
import RowGraph.Proofs.Schema.Entries
/-!
Where the entries that a request shows come from. Every row that is met inside of an entry type was
read from the store on the way, and the stamp that is shown of it is the stamp of that read. Main
statement: this is a law.
-/

namespace RowGraph

variable {σ : Type}

theorem Row.column?_set (row : Row) (name other : String) (v : Value) :
    (row.set name v).column? other = if other = name then some v else row.column? other := by
  unfold Row.set Row.column?
  rw [Assoc.lookup_insert]
  simp only [Std.LawfulEqOrd.compare_eq_iff_eq]

namespace Entry

theorem wrapped_eq (e : Entry) : e.wrapped = Row.set (Row.set (Row.set [] idColumn e.key.id.toValue)
    stampField (.string e.stamp.text)) valueField (.object e.shownRow) := by
  unfold wrapped Row.ofColumns Assoc.ofList Row.set
  simp only [List.foldl_cons, List.foldl_nil]

theorem wrapped_id (e : Entry) : e.wrapped.column? idColumn = some e.key.id.toValue := by
  simp [wrapped_eq, Row.column?_set, idColumn, stampField, valueField]

theorem wrapped_stamp (e : Entry) :
    e.wrapped.column? stampField = some (.string e.stamp.text) := by
  simp [wrapped_eq, Row.column?_set, stampField, valueField]

theorem wrapped_value (e : Entry) : e.wrapped.column? valueField = some (.object e.shownRow) := by
  simp [wrapped_eq, Row.column?_set]

theorem column_stamp (e : Entry) : Resolve.column stampField (.row e.wrapped) =
    .ok (some (.leaf (.string e.stamp.text))) := by
  have stored : Resolve.stored? e.wrapped stampField = some (.string e.stamp.text) := by
    unfold Resolve.stored?
    rw [e.wrapped_stamp]
    rfl
  unfold Resolve.column
  rw [show Resolve.parentRow (.row e.wrapped) = pure e.wrapped from rfl, pure_bind, stored]
  rfl

end Entry

-- A text that comes out of a position is the one that was delivered for it.
theorem Watched.outcome_text {c : Catalog} {object : ObjectData σ} (composes : Composes object)
    {loc : Location} {type : TypeExpr} {p : Path} {o : Option Outcome} {r : Run σ}
    {text shown : String} (delivered : ∀ found, o = some found → found = .leaf (.string text))
    (answer : (outcome c object loc type p o r).result = .ok (some (.string shown))) :
    shown = text := by
  cases o with
  | none =>
    cases type with
    | named name nonNull => cases nonNull <;> cases answer
    | list item nonNull => cases nonNull <;> cases answer
  | some o =>
    obtain rfl := delivered o rfl
    cases type with
    | list item nonNull => cases answer
    | named name nonNull =>
      unfold outcome at answer
      cases known : c.type? name with
      | none =>
        rw [known] at answer
        cases answer
      | some t =>
        rw [known] at answer
        obtain ⟨d, made, same⟩ := result_map answer
        cases same
        unfold Watched.value at made
        cases body : t.body with
        | object fields =>
          simp only [body] at made
          obtain ⟨members, same⟩ := composes t _ p r _ made
          cases same
        | enum values =>
          simp only [body] at made
          have left := result_own made
          simp only [Complete.value, body, Complete.enumValue] at left
          split at left
          · cases left
          · cases left
        | _ =>
          simp only [body] at made
          have left := result_own made
          simp only [Complete.value, body] at left
          cases left
          rfl

-- A position inside of an entry shows what was read since the start.
def Genuine (s : Schema) (b : Backend σ) (start now : σ) (v : Visit) : Prop :=
  ∀ a table row, v.place.asked = some a → s.document.entryTable? a.type = some table →
    a.parent = .row row → ∃ e, Fetched b table start now e ∧ row = e.wrapped ∧
      (a.field = stampField → ∀ text, v.answer = .ok (some (.string text)) → text = e.stamp.text)

theorem Genuine.later {s : Schema} {b : Backend σ} {start now after : σ} {v : Visit}
    (moves : Moves b now after) (genuine : Genuine s b start now v) :
    Genuine s b start after v := by
  intro a table row asked wrapped parent
  obtain ⟨e, fetched, same, shown⟩ := genuine a table row asked wrapped parent
  exact ⟨e, fetched.wider .refl moves, same, shown⟩

-- An object of an entry type is a row that was read since the start.
structure Sourced (x : Execution σ) (start now : σ) (t : TypeDef) (o : Outcome) : Prop where
  known : x.schema.catalog.type? t.name = some t
  since : Moves x.backend start now
  row : ∀ table row, x.schema.document.entryTable? t.name = some table → o = .row row →
    ∃ e, Fetched x.backend table start now e ∧ row = e.wrapped

theorem Sourced.later {x : Execution σ} {start now after : σ} {t : TypeDef} {o : Outcome}
    (moves : Moves x.backend now after) (sourced : Sourced x start now t o) :
    Sourced x start after t o := by
  refine ⟨sourced.known, sourced.since.trans moves, fun table row wrapped same => ?_⟩
  obtain ⟨e, fetched, shown⟩ := sourced.row table row wrapped same
  exact ⟨e, fetched.wider .refl moves, shown⟩

-- What is delivered for a type: rows of the table that it wraps, if it is an entry type.
theorem fits_of_delivers {x : Execution σ} {start now : σ} (since : Moves x.backend start now)
    {type : TypeExpr} {o : Outcome}
    (delivers : ∀ table, x.schema.document.entryTable? type.name = some table →
      Delivers x.backend table true start now o ∨ o = .leaf .null) :
    Fits x.schema.catalog (Sourced x start now) type o := by
  induction type generalizing o with
  | named name nonNull =>
    intro t found
    refine ⟨Catalog.type?_name found, since, fun table row wrapped same => ?_⟩
    rw [Catalog.name_of_type? found] at wrapped
    subst same
    rcases delivers table wrapped with (⟨e, fetched, shown⟩ | ⟨os, absurd, _⟩) | absurd
    · cases shown
      exact ⟨e, fetched, rfl⟩
    · cases absurd
    · cases absurd
  | list item nonNull ih =>
    intro items listed i member
    refine ih fun table wrapped => ?_
    rcases delivers table wrapped with (⟨e, _, rfl⟩ | ⟨os, rfl, each⟩) | rfl
    · cases listed
    · cases listed
      exact (each i member).imp_left .inl
    · cases listed

theorem Delivers.since {b : Backend σ} {table : String} {entry : Bool} {start s s' : σ}
    {o : Outcome} (before : Moves b start s) (delivers : Delivers b table entry s s' o) :
    Delivers b table entry start s' o := by
  rcases delivers with shows | ⟨os, same, each⟩
  · exact .inl (shows.wider before .refl)
  · exact .inr ⟨os, same, fun i member => (each i member).imp_left fun shows =>
      shows.wider before .refl⟩

namespace Declared

variable {x : Execution σ} {here : Path} {loc : Location} {arguments : Arguments}
  {parent : Outcome} {r r' : Run σ}

theorem fits (grounded : x.schema.Grounded) {type : TypeDef} {f : FieldDef} {o : Outcome} {start : σ}
    (known : x.schema.catalog.type? type.name = some type) (field : type.field? f.name = some f)
    (declared : Declared x type.name f.name here loc arguments parent r (.ok (some o), r'))
    (since : Moves x.backend start r.store) :
    Fits x.schema.catalog (Sourced x start r'.store) f.type o := by
  refine fits_of_delivers (since.trans ⟨_, declared.sends⟩) fun table wrapped => .inl ?_
  generalize answer : (Except.ok (some o), r') = ran at declared
  cases declared with
  | refused => cases answer
  | unserved => cases answer
  | @resolved first r'' resolver result _ served steady _ resolved =>
    obtain ⟨same, rfl⟩ := Prod.mk.inj answer
    cases result with
    | error e => cases same
    | ok found =>
      obtain rfl := Except.ok.inj same
      obtain ⟨shape, shaped, named, entry⟩ := grounded.leads known field served wrapped
      have delivers := resolved.delivers shape table o shaped named rfl
      rw [entry] at delivers
      exact delivers.since (since.trans steady.moves)

-- The stamp field of an entry gives the stamp of the entry, if it gives anything.
theorem stamp (grounded : x.schema.Grounded) {type table : String} {e : Entry} {o : Option Outcome}
    (wrapped : x.schema.document.entryTable? type = some table)
    (declared : Declared x type stampField here loc arguments (.row e.wrapped) r (.ok o, r')) :
    ∀ found, o = some found → found = .leaf (.string e.stamp.text) := by
  intro found some
  subst some
  generalize answer : (Except.ok (Option.some found), r') = ran at declared
  cases declared with
  | refused => cases answer
  | unserved => cases answer
  | @resolved first r'' resolver result _ served steady ran resolved =>
    obtain ⟨same, rfl⟩ := Prod.mk.inj answer
    obtain rfl := grounded.entry_column wrapped (by decide) served
    have shown : x.resolver here loc arguments (.row e.wrapped) (.column stampField) first =
        (Resolve.column stampField (.row e.wrapped), first) := by
      unfold Execution.resolver
      simp only
      cases Resolve.column stampField (.row e.wrapped) <;> rfl
    rw [shown, e.column_stamp] at ran
    obtain rfl := (Prod.mk.inj ran).1
    cases same
    rfl

end Declared

-- What holds of the fields that were asked for, and goes on to hold whatever the store does later.
structure Remembered (b : Backend σ) (Q : σ → Visit → Prop) : Prop where
  unasked : ∀ now v, v.place.asked = none → Q now v
  later : ∀ now after v, Moves b now after → Q now v → Q after v

theorem Genuine.remembered (s : Schema) (b : Backend σ) (start : σ) :
    Remembered b (Genuine s b start) where
  unasked _ _ unasked _ _ _ asked := nomatch unasked.symm.trans asked
  later _ _ _ moves genuine := genuine.later moves

-- What holds of everything that a computation has asked for.
def Traces (x : Execution σ) (Q : σ → Visit → Prop) (α : Type) (_ : Path) (r : Run σ)
    (w : Watch σ α) : Prop :=
  Moves x.backend r.store w.run.store ∧ ∀ v ∈ Invocation.visitsOf w.seen, Q w.run.store v

namespace Traces

variable {x : Execution σ} {Q : σ → Visit → Prop}

theorem close {v : Visit} {r r' : Run σ} {w : Watch σ (Option Datum)} {p : Path}
    (before : Moves x.backend r.store r'.store) (inside : Traces x Q _ p r' w)
    (own : ∀ v', Watched.Closed v w (Watched.close v w) v' → Q w.run.store v') :
    Traces x Q _ p r (Watched.close v w) := by
  obtain ⟨v', closed⟩ := Watched.close_closed v w
  unfold Traces
  rw [closed.seen, closed.store, Invocation.visitsOf_position]
  refine ⟨before.trans inside.1, fun u member => ?_⟩
  rcases List.mem_cons.mp member with rfl | deeper
  · exact own u closed
  · exact inside.2 u deeper

theorem idle {α : Type} {p : Path} {r : Run σ} {w : Watch σ α} (run : w.run.store = r.store)
    (seen : Invocation.visitsOf w.seen = []) : Traces x Q α p r w := by
  unfold Traces
  rw [run, seen]
  exact ⟨.refl, fun _ absurd => nomatch absurd⟩

theorem steps (remembered : Remembered x.backend Q) : Steps (Traces x Q) where
  give _ _ _ _ := idle rfl rfl
  raise _ _ _ _ _ _ := idle rfl rfl
  next _ _ _ _ _ _ _ first _ rest := by
    refine ⟨first.1.trans rest.1, fun v member => ?_⟩
    rw [Invocation.visitsOf_append] at member
    rcases List.mem_append.mp member with old | new
    · exact remembered.later _ _ v rest.1 (first.2 v old)
    · exact rest.2 v new
  stop _ _ _ _ _ _ first _ := first
  atElement p i nullable body r inside := by
    have taken : (Exec.takeMark (p ++ [.index i]) r).2.store = r.store :=
      (Exec.takeMark_eq (p ++ [.index i]) r).2.1
    obtain ⟨v, w, closes, unasked, found⟩ :=
      Watched.element_close (p ++ [.index i]) nullable body r
    have before : Moves x.backend r.store (Exec.takeMark (p ++ [.index i]) r).2.store := by
      rw [taken]
      exact .refl
    have own (v' : Visit) (closed : Watched.Closed v w (Watched.close v w) v') : Q w.run.store v' :=
      remembered.unasked _ v' (by rw [closed.place, unasked])
    rw [closes]
    rcases found with rfl | ⟨run, seen⟩
    · exact close (p := p) before inside own
    · exact close (p := p) before (idle (by rw [run]) (by rw [seen]; rfl)) own

theorem description (p : Path) (head : FieldHead) (f : FieldDef) (children : List Node)
    (r : Run σ) : Traces x Q _ p r (x.watchDescription p head f children r) := by
  obtain ⟨run, stopped, left, seen⟩ := x.watchDescription_record p head f children r
  refine idle ?_ (by rw [seen]; rfl)
  rw [run, (Asides.enterDescription x p head f children r).store]

end Traces

theorem Genuine.invocation {x : Execution σ} {start : σ} (grounded : x.schema.Grounded)
    {type : TypeDef} {parent : Outcome} {p : Path} {key : String} {loc : Location}
    {object : Watched.ObjectData σ} {f : FieldDef} {arguments : Arguments} {r : Run σ}
    (sourced : Sourced x start r.store type parent)
    (field : type.field? f.name = some f)
    (objects : Objects (Traces x (Genuine x.schema x.backend start)) (Sourced x start) object)
    (composes : Composes object) :
    Traces x (Genuine x.schema x.backend start) _ p r
      (x.watchInvocation type parent (p ++ [.field key]) loc object f arguments r) := by
  have declared := x.declaredField_declared type.name f.name (p ++ [.field key]) loc arguments parent r
  -- What is shown of the parent was read before, and only its stamp is given as a stamp.
  have genuine {v v' : Visit} {w : Watch σ (Option Datum)}
      (asked : v.place.asked = some ⟨type.name, f.name, parent, arguments⟩)
      (moves : Moves x.backend r.store w.run.store)
      (closed : Watched.Closed v w (Watched.close v w) v')
      (stamp : ∀ (e : Entry) table, x.schema.document.entryTable? type.name = some table →
        f.name = stampField → parent = .row e.wrapped →
        ∀ text, w.result = .ok (some (.string text)) → text = e.stamp.text) :
      Genuine x.schema x.backend start w.run.store v' := by
    intro a table row asked' wrapped same
    rw [closed.place, asked] at asked'
    obtain rfl := Option.some.inj asked'
    obtain ⟨e, fetched, rfl⟩ := sourced.row table row wrapped same
    refine ⟨e, fetched.wider .refl moves, rfl, fun named text answer => ?_⟩
    exact stamp e table wrapped named same text (closed.value _ answer)
  unfold Execution.watchInvocation
  split
  · rename_i o r' ran
    rw [ran] at declared
    have moves : Moves x.backend r.store r'.store := ⟨_, declared.sends⟩
    have inside : Traces x (Genuine x.schema x.backend start) _ (p ++ [.field key]) r'
        (Watched.outcome x.schema.catalog object loc f.type (p ++ [.field key]) o r') := by
      refine (Traces.steps (Genuine.remembered _ _ _)).ofOutcome
        (fun _ _ _ _ _ _ inside sourced => sourced.later inside.1) objects loc f.type _ o r'
        fun found same => ?_
      subst same
      exact declared.fits grounded sourced.known field sourced.since
    refine Traces.close (p := p) moves inside fun v' closed => ?_
    refine genuine rfl (moves.trans inside.1) closed fun e table wrapped named same text answer => ?_
    subst same
    rw [named] at declared
    exact Watched.outcome_text composes (declared.stamp grounded wrapped) answer
  · rename_i e r' ran
    rw [ran] at declared
    have moves : Moves x.backend r.store r'.store := ⟨_, declared.sends⟩
    refine Traces.close (p := p) moves (Traces.idle rfl rfl) fun v' closed => ?_
    exact genuine rfl moves closed fun _ _ _ _ _ _ absurd => nomatch absurd

theorem provenance_law {x : Execution σ} (grounded : x.schema.Grounded) (start : σ) :
    Law x (Traces x (Genuine x.schema x.backend start)) (Sourced x start) where
  toSteps := Traces.steps (Genuine.remembered _ _ _)
  lasting _ _ _ _ _ _ inside sourced := sourced.later inside.1
  invocation _ _ _ _ _ _ _ _ _ sourced field objects composes :=
    Genuine.invocation grounded sourced field objects composes
  description _ _ p head f children r _ _ := Traces.description p head f children r

end RowGraph
