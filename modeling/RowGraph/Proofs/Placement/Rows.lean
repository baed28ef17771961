import RowGraph.Proofs.Execution.Resolve
import RowGraph.Store.Memory
/-!
Rows of the in-memory store as the resolvers find them. Main statements: a row that is there is
handed on by every field that asks for its id, and one row of a list is handed on at the index of
its id, where no mark is set.
-/

namespace RowGraph

variable {σ : Type}

-- The marks of a list are set around the elements that have a row.
structure Untouched (p : Path) (r r' : Run σ) : Prop where
  store : r'.store = r.store
  absorbed : r'.absorbed = r.absorbed
  mark : markAt r'.marks p = markAt r.marks p

theorem Untouched.trans {p : Path} {r r' r'' : Run σ} (first : Untouched p r r')
    (second : Untouched p r' r'') : Untouched p r r'' :=
  ⟨second.store.trans first.store, second.absorbed.trans first.absorbed,
    second.mark.trans first.mark⟩

theorem Marking.untouched {path : Path} {errors : Prop} {lo hi i : Nat} {r r' : Run σ}
    (marking : Marking path errors lo hi r r') (before : i < lo) :
    Untouched (path ++ [.index i]) r r' := by
  refine ⟨marking.store, marking.absorbed, ?_⟩
  rcases marking.marks (path ++ [.index i]) with same | ⟨j, _, above, _, place, _⟩
  · exact same
  · have same : i = j := by simpa using place
    omega

namespace Resolve

-- A row of a root field is looked up like a reference that is never broken.
def Link.ofRow : Option Outcome → Link
  | some o => .row o
  | none => .empty

theorem rootElements_eq (path : Path) (loc : Location) (rows : List (Option Outcome)) (index : Nat) :
    rootElements (σ := σ) path loc index rows =
      linkElements path loc false index (rows.map Link.ofRow) := by
  induction rows generalizing index with
  | nil => rfl
  | cons row rest ih =>
    cases row with
    | some o => rw [rootElements, ih]; rfl
    | none => rw [rootElements, ih]; rfl

-- What has no row is marked, and the rest of the list goes on from there.
theorem linkElements_gap (path : Path) (loc : Location) (link : Link) (rest : List Link)
    (index : Nat) (r : Run σ) : ∃ o r₀, (∀ i, index < i → Untouched (path ++ [.index i]) r r₀) ∧
      ∀ os r', linkElements path loc false (index + 1) rest r₀ = (.ok os, r') →
        linkElements path loc false index (link :: rest) r = (.ok (o :: os), r') := by
  have marks (e : Option ResponseError) (i : Nat) (other : index < i) :
      Untouched (path ++ [.index i]) r (Exec.setMark (path ++ [.index index]) e r) := by
    refine ⟨rfl, rfl, ?_⟩
    rw [Exec.markAt_setMark, if_neg]
    intro same
    have same : i = index := by simpa using same
    omega
  cases link with
  | row o =>
    refine ⟨o, r, fun _ _ => ⟨rfl, rfl, rfl⟩, fun os r' ran => ?_⟩
    rw [linkElements, bind_apply, ran]
    rfl
  | empty =>
    refine ⟨.leaf .null, _, marks none, fun os r' ran => ?_⟩
    rw [linkElements, bind_apply, nullElement_apply]
    simp only [Option.map_none]
    rw [bind_apply, ran]
    rfl
  | broken e =>
    refine ⟨.leaf .null, _, marks (some (e.raisedAt loc)), fun os r' ran => ?_⟩
    rw [linkElements]
    simp only [Bool.false_eq_true, if_false]
    rw [bind_apply, nullElement_apply]
    simp only [Option.map_some]
    rw [bind_apply, ran]
    rfl

theorem linkElements_row (path : Path) (loc : Location) {links : List Link} (index : Nat) (r : Run σ)
    {i : Nat} {o : Outcome} (found : links[i]? = some (.row o)) :
    ∃ os r', linkElements path loc false index links r = (.ok os, r') ∧ os[i]? = some o ∧
      Untouched (path ++ [.index (index + i)]) r r' := by
  induction links generalizing index r i with
  | nil => cases found
  | cons link rest ih =>
    cases i with
    | zero =>
      obtain rfl := Option.some.inj found
      obtain ⟨result, r', ran, placed, marking⟩ :=
        linkElements_marks path loc false rest (index + 1) r
      cases result with
      | error e => cases placed.fails e rfl
      | ok os =>
        refine ⟨o :: os, r', ?_, rfl, marking.untouched (Nat.lt_succ_self index)⟩
        rw [linkElements, bind_apply, ran]
        rfl
    | succ i =>
      obtain ⟨o', r₀, untouched, goes⟩ := linkElements_gap path loc link rest index r
      obtain ⟨os, r', ran, shown, untouched'⟩ := ih (index + 1) r₀ found
      rw [show index + 1 + i = index + (i + 1) by omega] at untouched'
      exact ⟨_, r', goes os r' ran, shown, (untouched _ (by omega)).trans untouched'⟩

theorem rootElements_row (path : Path) (loc : Location) {rows : List (Option Outcome)} (r : Run σ)
    {i : Nat} {o : Outcome} (found : rows[i]? = some (some o)) :
    ∃ os r', rootElements path loc 0 rows r = (.ok os, r') ∧ os[i]? = some o ∧
      Untouched (path ++ [.index i]) r r' := by
  rw [rootElements_eq]
  have linked : (rows.map Link.ofRow)[i]? = some (.row o) := by
    rw [List.getElem?_map, found]
    rfl
  have row := linkElements_row path loc 0 r linked
  rwa [Nat.zero_add] at row

theorem fetch_memory (key : Key) (r : Run Memory) :
    fetch Memory.backend key r = (.ok (r.store.get? key), r) := rfl

-- The row that an id in a request leads to. A null leads to none.
def found (store : Memory) (table : String) (entry : Bool) (d : Datum) : Option Outcome :=
  (idOfDatum? d).bind fun id => (store.get? ⟨table, id⟩).map (·.outcome entry)

theorem found_stored {store : Memory} {key : Key} {e : Entry} (stored : store.get? key = some e)
    (entry : Bool) {d : Datum} (id : idOfDatum? d = some key.id) :
    found store key.table entry d = some (e.outcome entry) := by
  unfold found
  rw [id, Option.bind_some, stored]
  rfl

theorem rootRow_found (argument table : String) (entry : Bool) {d : Datum}
    (readable : (idOfDatum? d).isSome = true) (r : Run Memory) :
    rootRow Memory.backend argument table entry d r = (.ok (found r.store table entry d), r) := by
  obtain ⟨id, asked⟩ := Option.isSome_iff_exists.mp readable
  unfold rootRow argumentId found
  rw [asked]
  rfl

theorem rootRows_found (argument table : String) (entry : Bool) {ids : List Datum}
    (readable : ∀ d ∈ ids, d.isNull = true ∨ (idOfDatum? d).isSome = true) (r : Run Memory) :
    rootRows Memory.backend argument table entry ids r =
      (.ok (ids.map (found r.store table entry)), r) := by
  induction ids with
  | nil => rfl
  | cons d rest ih =>
    have later := ih fun d member => readable d (List.mem_cons_of_mem _ member)
    have first : (if d.isNull then pure none else
        rootRow Memory.backend argument table entry d : Resolving Memory (Option Outcome)) r =
          (.ok (found r.store table entry d), r) := by
      split
      · rename_i null
        cases d <;> first | rfl | cases null
      · rename_i other
        exact rootRow_found argument table entry
          ((readable d List.mem_cons_self).resolve_left other) r
    have unfolded : rootRows Memory.backend argument table entry (d :: rest) =
        ((if d.isNull then pure none else rootRow Memory.backend argument table entry d) >>=
          fun row => rootRows Memory.backend argument table entry rest >>= fun rows =>
            pure (row :: rows)) := by
      rw [rootRows]
      split <;> rfl
    rw [unfolded, bind_apply, first]
    simp only
    rw [bind_apply, later]
    rfl

section

variable {argument table : String} {shape : FieldShape} {arguments : Arguments}

-- Without an argument there is nothing to look up.
theorem root_absent (b : Backend σ) (rows : shape.kind ≠ .scalar)
    (absent : argument? arguments argument = none) (here : Path) (loc : Location) (r : Run σ) :
    root b argument shape here loc arguments r = (.ok none, r) := by
  unfold root
  rw [absent]
  cases kind : shape.kind with
  | scalar => exact absurd kind rows
  | reference table => rfl
  | referenceList table required => rfl

-- A single id leads to its row.
theorem root_single (kind : shape.kind = .reference table) {d : Datum}
    (given : d.isNull = true ∧ argument? arguments argument = none ∨
      (idOfDatum? d).isSome = true ∧ argument? arguments argument = some d)
    (here : Path) (loc : Location) (r : Run Memory) :
    root Memory.backend argument shape here loc arguments r =
      (.ok (found r.store table shape.entry d), r) := by
  rcases given with ⟨null, absent⟩ | ⟨readable, given⟩
  · rw [root_absent Memory.backend (by simp [kind]) absent]
    cases d <;> first | rfl | cases null
  · unfold root
    rw [kind, given]
    exact rootRow_found argument table shape.entry readable r

end

theorem follow_id {column table : String} {entry required : Bool} {v : Value} {id : RowId}
    (asked : RowId.ofValue? v = some id) (r : Run Memory) :
    follow Memory.backend column table entry required (some v) r =
      (.ok (match r.store.get? ⟨table, id⟩ with
        | some e => .row (e.outcome entry)
        | none => .broken (.danglingReference table id)), r) := by
  have read : referencedId column v = .ok id := by
    unfold referencedId
    rw [asked]
  simp only [follow, read]
  rw [bind_apply, fetch_memory]
  cases r.store.get? ⟨table, id⟩ <;> rfl

-- Following a reference comes to something, whatever is stored there.
theorem follow_memory (column table : String) (entry required : Bool) (v : Option Value)
    (r : Run Memory) :
    ∃ link, follow Memory.backend column table entry required v r = (.ok link, r) := by
  cases v with
  | none => exact ⟨_, rfl⟩
  | some v =>
    cases asked : RowId.ofValue? v with
    | some id => exact ⟨_, follow_id asked r⟩
    | none =>
      have unread : referencedId column v = .error (.invalidReference column v.kindName) := by
        unfold referencedId
        rw [asked]
      simp only [follow, unread]
      exact ⟨_, rfl⟩

theorem followAll_memory (column table : String) (entry required : Bool) (items : List Value)
    (r : Run Memory) :
    ∃ links, followAll Memory.backend column table entry required items r = (.ok links, r) ∧
      ∀ (i : Nat) (v : Value), items[i]? = some v → ∃ link, links[i]? = some link ∧
        follow Memory.backend column table entry required (present? v) r = (.ok link, r) := by
  induction items with
  | nil => exact ⟨[], rfl, fun _ _ absurd => nomatch absurd⟩
  | cons v rest ih =>
    obtain ⟨links, ran, found⟩ := ih
    obtain ⟨link, ran'⟩ := follow_memory column table entry required (present? v) r
    refine ⟨link :: links, ?_, fun i v' there => ?_⟩
    · rw [followAll, bind_apply, ran']
      simp only
      rw [bind_apply, ran]
      rfl
    · cases i with
      | zero =>
        obtain rfl := Option.some.inj there
        exact ⟨link, rfl, ran'⟩
      | succ i => exact found i v' there

-- What an id is read from is a value.
theorem present?_id {v : Value} {id : RowId} (asked : RowId.ofValue? v = some id) :
    present? v = some v := by
  cases v with
  | string s => rfl
  | int n => rfl
  | _ => cases asked

-- A resolver hands on the row that it is asked for.
section

variable {key : Key} {e : Entry} {shape : FieldShape} {r : Run Memory}
  (stored : r.store.get? key = some e) (here : Path) (loc : Location)

include stored

theorem root_row {argument : String} {arguments : Arguments} {d : Datum}
    (kind : shape.kind = .reference key.table) (given : argument? arguments argument = some d)
    (id : idOfDatum? d = some key.id) :
    root Memory.backend argument shape here loc arguments r =
      (.ok (some (e.outcome shape.entry)), r) := by
  rw [root_single kind (.inr ⟨Option.isSome_iff_exists.mpr ⟨_, id⟩, given⟩), found_stored stored _ id]

theorem root_rows {argument : String} {arguments : Arguments} {ids : List Datum} {i : Nat} {d : Datum}
    {required : Bool} (kind : shape.kind = .referenceList key.table required)
    (given : argument? arguments argument = some (.list ids))
    (readable : ∀ d ∈ ids, d.isNull = true ∨ (idOfDatum? d).isSome = true)
    (there : ids[i]? = some d) (id : idOfDatum? d = some key.id) :
    ∃ os r', root Memory.backend argument shape here loc arguments r = (.ok (some (.list os)), r') ∧
      os[i]? = some (e.outcome shape.entry) ∧ Untouched (here ++ [.index i]) r r' := by
  have row : (ids.map (found r.store key.table shape.entry))[i]? =
      some (some (e.outcome shape.entry)) := by
    rw [List.getElem?_map, there, Option.map_some, found_stored stored _ id]
  obtain ⟨os, r', placed, shown, untouched⟩ := rootElements_row here loc r row
  refine ⟨os, r', ?_, shown, untouched⟩
  unfold root
  rw [kind, given]
  simp only
  rw [bind_apply, rootRows_found argument key.table shape.entry readable r]
  simp only
  rw [bind_apply, placed]
  rfl

theorem reference_row {column : String} {row : Row} {v : Value}
    (kind : shape.kind = .reference key.table) (there : stored? row column = some v)
    (id : RowId.ofValue? v = some key.id) :
    reference Memory.backend column shape here loc (.row row) r =
      (.ok (some (e.outcome shape.entry)), r) := by
  unfold reference
  rw [parentRow_bind, kind]
  simp only
  rw [there, bind_apply, follow_id id, stored]
  rfl

theorem reference_rows {column : String} {row : Row} {items : List Value} {i : Nat} {v : Value}
    (kind : shape.kind = .referenceList key.table false)
    (there : stored? row column = some (.array items)) (member : items[i]? = some v)
    (id : RowId.ofValue? v = some key.id) :
    ∃ os r', reference Memory.backend column shape here loc (.row row) r =
        (.ok (some (.list os)), r') ∧
      os[i]? = some (e.outcome shape.entry) ∧ Untouched (here ++ [.index i]) r r' := by
  obtain ⟨links, ran, found⟩ := followAll_memory column key.table shape.entry false items r
  obtain ⟨link, linked, followed⟩ := found i v member
  rw [present?_id id, follow_id id, stored] at followed
  obtain rfl := Except.ok.inj (Prod.mk.inj followed).1
  obtain ⟨os, r', placed, shown, untouched⟩ := linkElements_row here loc 0 r linked
  rw [Nat.zero_add] at untouched
  refine ⟨os, r', ?_, shown, untouched⟩
  unfold reference
  rw [parentRow_bind, kind]
  simp only
  rw [there]
  simp only
  rw [bind_apply, ran]
  simp only
  rw [bind_apply, placed]
  rfl

end

end Resolve

end RowGraph
