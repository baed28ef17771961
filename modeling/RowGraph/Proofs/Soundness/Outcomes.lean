import RowGraph.Proofs.Concurrency.Provenance
import RowGraph.Proofs.Propagation.Upright
import RowGraph.Proofs.Reference.Links
import RowGraph.Proofs.Schema.Kinds
import RowGraph.Proofs.Soundness.Faults
/-!
What resolvers hand on, by the declared type of their field. Main statements: for a list type it is a
list, for an object type a row and for a scalar a text, and an element of a list that is none of
these has been marked; a resolver never fails with a fault of the program as long as its parent is
what the type of the parent asks for.
-/

namespace RowGraph

open Resolve

variable {σ α β : Type}

-- A row that can be shown as an object of a type: in one of an entry type there is a row.
def Schema.RowFor (s : Schema) (name : String) (o : Outcome) : Prop :=
  ∃ row, o = .row row ∧
    (s.showsEntries name = true → ∃ held, row.column? valueField = some (.object held))

-- The kind of value that a declared type asks for. Below a list it may be missing where a mark
-- waits.
def Schema.Suits (s : Schema) (marks : List (Path × Option ResponseError)) :
    TypeExpr → Path → Outcome → Prop
  | .named name _, _, o => ∃ t, s.catalog.type? name = some t ∧
      match t.body with
      | .object _ => s.RowFor name o
      | .scalar => ∃ text, o = .leaf (.string text)
      | _ => False
  | .list item _, here, o => ∃ items, o = .list items ∧ ∀ i inside, items[i]? = some inside →
      s.Suits marks item (here ++ [.index i]) inside ∨
        inside = .leaf .null ∧ markAt marks (here ++ [.index i]) ≠ none

-- A type that rows of a table are shown by, with the shape it has.
structure Schema.Rows (s : Schema) (type : TypeExpr) (shape : FieldShape) : Prop where
  classified : FieldShape.classify s.document.lookup type = .ok shape
  entry : shape.entry = s.showsEntries type.name
  object : ∃ t fields, s.catalog.type? type.name = some t ∧ t.body = .object fields

namespace Schema

variable {s : Schema} {marks : List (Path × Option ResponseError)} {here : Path}

theorem RowFor.outcome (e : Entry) (name : String) :
    s.RowFor name (e.outcome (s.showsEntries name)) := by
  refine ⟨_, rfl, fun entry => ⟨e.shownRow, ?_⟩⟩
  rw [if_pos entry]
  exact e.wrapped_value

-- A type that shows no entries takes every row.
theorem RowFor.plain {name : String} (plain : s.showsEntries name = false) (row : Row) :
    s.RowFor name (.row row) := by
  refine ⟨row, rfl, fun entry => ?_⟩
  rw [plain] at entry
  cases entry

theorem Suits.row {name : String} {nonNull : Bool}
    (object : ∃ t fields, s.catalog.type? name = some t ∧ t.body = .object fields) {o : Outcome}
    (row : s.RowFor name o) : s.Suits marks (.named name nonNull) here o := by
  obtain ⟨t, fields, known, body⟩ := object
  refine ⟨t, known, ?_⟩
  rw [body]
  exact row

-- Marks elsewhere do not matter.
theorem Suits.keep {marks' : List (Path × Option ResponseError)} {type : TypeExpr} {o : Outcome}
    (suits : s.Suits marks type here o)
    (kept : ∀ q, Below here q → markAt marks' q = markAt marks q) : s.Suits marks' type here o := by
  induction type generalizing here o with
  | named name nonNull => exact suits
  | list item nonNull ih =>
    obtain ⟨items, rfl, each⟩ := suits
    refine ⟨items, rfl, fun i inside found => ?_⟩
    have below : Below here (here ++ [.index i]) := .snoc here _
    rcases each i inside found with fits | ⟨null, marked⟩
    · exact .inl (ih fits fun q deeper => kept q (below.trans deeper))
    · exact .inr ⟨null, by rwa [kept _ below]⟩

namespace Rows

variable {type : TypeExpr} {shape : FieldShape} (rows : s.Rows type shape)

include rows

theorem single {table : String} (kind : shape.kind = .reference table) (e : Entry) :
    s.Suits marks type here (e.outcome shape.entry) := by
  rw [FieldShape.classify_reference rows.classified kind, rows.entry]
  exact .row rows.object (.outcome e _)

theorem list {table : String} {required : Bool} (kind : shape.kind = .referenceList table required)
    {items : List Outcome} (each : ∀ i o, items[i]? = some o → (∃ e : Entry, o = e.outcome shape.entry) ∨
      o = .leaf .null ∧ markAt marks (here ++ [.index i]) ≠ none) :
    s.Suits marks type here (.list items) := by
  rw [FieldShape.classify_references rows.classified kind]
  refine ⟨items, rfl, fun i o found => (each i o found).imp_left ?_⟩
  rintro ⟨e, rfl⟩
  rw [rows.entry]
  exact .row rows.object (.outcome e _)

end Rows

end Schema

-- What a computation hands on, without a fault of the program.
structure Supplies (Q : List (Path × Option ResponseError) → α → Prop) (x : Resolving σ α) : Prop where
  polite : Polite x
  mild : ∀ r, r.Mild → (x r).2.Mild
  gives : ∀ r a, (x r).1 = .ok a → Q (x r).2.marks a

namespace Supplies

variable {P : List (Path × Option ResponseError) → α → Prop}
  {Q : List (Path × Option ResponseError) → β → Prop}

theorem pure {a : α} (holds : ∀ marks, P marks a) : Supplies P (Pure.pure a : Resolving σ α) := by
  refine ⟨.pure a, fun r mild => mild, fun r a' same => ?_⟩
  rw [← Except.ok.inj same]
  exact holds _

theorem throw {e : GraphError} (external : ¬ e.Internal) :
    Supplies P (MonadExcept.throw e : Resolving σ α) :=
  ⟨.throw external, fun _ mild => mild, fun _ _ absurd => nomatch absurd⟩

theorem lift {x : Except GraphError α} (external : ∀ e, x = .error e → ¬ e.Internal)
    (holds : ∀ a, x = .ok a → ∀ marks, P marks a) : Supplies P (liftM x : Resolving σ α) := by
  cases x with
  | ok a => exact pure (holds a rfl)
  | error e => exact throw (external e rfl)

theorem ofGives {b : Backend σ} {x : Resolving σ α} {G : σ → σ → α → Prop} (gives : Gives b x G)
    (polite : Polite x) (imp : ∀ s s' a, G s s' a → ∀ marks, P marks a) : Supplies P x :=
  ⟨polite, fun r mild => mild.steady (gives r).1, fun r a same => imp _ _ a ((gives r).2 a same) _⟩

theorem bind {x : Resolving σ α} {f : α → Resolving σ β} (first : Supplies P x)
    (rest : ∀ a, (∃ marks, P marks a) → Supplies Q (f a)) : Supplies Q (x >>= f) := by
  refine ⟨fun r e failed => ?_, fun r mild => ?_, fun r c made => ?_⟩
  · rw [bind_apply] at failed
    rcases ran : x r with ⟨e' | a, r'⟩
    · obtain rfl : e' = e := by
        rw [ran] at failed
        exact Except.error.inj failed
      exact first.polite r e' (by rw [ran])
    · rw [ran] at failed
      exact (rest a ⟨_, first.gives r a (by rw [ran])⟩).polite r' e failed
  · have start := first.mild r mild
    rw [bind_apply]
    rcases ran : x r with ⟨e' | a, r'⟩
    · rw [ran] at start
      exact start
    · rw [ran] at start
      exact (rest a ⟨_, first.gives r a (by rw [ran])⟩).mild r' start
  · rw [bind_apply] at made ⊢
    rcases ran : x r with ⟨e' | a, r'⟩
    · rw [ran] at made
      cases made
    · rw [ran] at made
      exact (rest a ⟨_, first.gives r a (by rw [ran])⟩).gives r' c made

theorem map {x : Resolving σ α} {f : α → β} (inside : Supplies P x)
    (implied : ∀ marks a, P marks a → Q marks (f a)) :
    Supplies Q (x >>= fun a => Pure.pure (f a)) := by
  refine ⟨inside.polite.bind fun a => .pure _, fun r mild => ?_, fun r c made => ?_⟩
  · have start := inside.mild r mild
    rw [bind_apply]
    rcases ran : x r with ⟨_ | _, _⟩
    · rwa [ran] at start
    · rwa [ran] at start
  · rw [bind_apply] at made ⊢
    rcases ran : x r with ⟨e | a, r'⟩
    · rw [ran] at made
      cases made
    · rw [ran] at made
      obtain rfl := Except.ok.inj made
      have given := inside.gives r a (by rw [ran])
      rw [ran] at given
      exact implied _ a given

theorem imp {P' : List (Path × Option ResponseError) → α → Prop} {x : Resolving σ α}
    (supplies : Supplies P x) (implied : ∀ marks a, P marks a → P' marks a) : Supplies P' x :=
  ⟨supplies.polite, supplies.mild, fun r a made => implied _ a (supplies.gives r a made)⟩

end Supplies

-- The errors that elements are marked with are those of the links.
theorem Marked.mild {here : Path} {loc : Location} {entry : Bool} {links : List Link} {r s : Run σ}
    (marked : Marked here loc 0 links r s)
    (followed : ∀ link ∈ links, Followed entry false link) (mild : r.Mild) (q : Path)
    (e : ResponseError) (found : markAt s.marks q = some (some e)) : ¬ e.Internal := by
  by_cases inside : ∃ k, k < links.length ∧ q = here ++ [.index (0 + k)]
  · obtain ⟨k, before, rfl⟩ := inside
    have link := List.getElem?_eq_getElem before
    have member := List.mem_of_getElem? link
    rw [marked.own k _ link] at found
    generalize links[k] = link at found member
    cases link with
    | row o => exact mild.marks _ e found
    | empty => cases found
    | broken e' =>
      obtain rfl := Option.some.inj (Option.some.inj found)
      cases followed _ member with
      | broken external => exact mt (ResponseError.raisedAt_internal e' loc).mp external
  · rw [marked.other q fun k before same => inside ⟨k, before, same⟩] at found
    exact mild.marks q e found

namespace Resolve

theorem whole_broken {required : Bool} {links : List Link} {e : GraphError}
    (failed : whole required links = .error e) : Link.broken e ∈ links := by
  induction links with
  | nil => cases failed
  | cons link rest ih =>
    have later {kept : Link} (failed : (whole required rest).map (kept :: ·) = .error e) :
        Link.broken e ∈ link :: rest := by
      cases found : whole required rest with
      | ok ls =>
        rw [found] at failed
        cases failed
      | error e' =>
        rw [found] at failed
        obtain rfl := Except.error.inj failed
        exact List.mem_cons_of_mem _ (ih found)
    cases link with
    | row o => exact later failed
    | empty => exact later failed
    | broken e' =>
      unfold whole at failed
      split at failed
      · rw [Except.error.inj failed]
        exact List.mem_cons_self
      · exact later failed

section

variable {here : Path} {loc : Location} {entry : Bool} {links : List Link}

-- What is there of a list of rows: an entry, or a null at a marked position.
def Listing (here : Path) (entry : Bool) (marks : List (Path × Option ResponseError))
    (os : List Outcome) : Prop :=
  ∀ (i : Nat) (o : Outcome), os[i]? = some o → (∃ e : Entry, o = e.outcome entry) ∨
    o = .leaf .null ∧ markAt marks (here ++ [.index i]) ≠ none

theorem linkElements_full (followed : ∀ link ∈ links, Followed entry true link) :
    Supplies (Listing here entry) (linkElements (σ := σ) here loc true 0 links) := by
  have full (link : Link) (member : link ∈ links) : link ≠ .empty := by
    rintro rfl
    cases followed _ member with
    | empty absurd => cases absurd
  have ran := linkElements_whole (σ := σ) here loc links 0 full
  refine ⟨fun r e failed => ?_, fun r mild => by rwa [ran], fun r os made i o there => .inl ?_⟩
  · rw [ran] at failed
    cases found : whole true links with
    | ok kept =>
      rw [found] at failed
      cases failed
    | error e' =>
      rw [found] at failed
      obtain rfl := Except.error.inj failed
      cases followed _ (whole_broken found) with
      | broken external => exact external
  · rw [ran] at made
    cases found : whole true links with
    | error e' =>
      rw [found] at made
      cases made
    | ok kept =>
      rw [found] at made
      obtain rfl := Except.ok.inj made
      obtain ⟨rfl, unbroken⟩ := whole_required found
      rw [List.getElem?_map] at there
      obtain ⟨link, at_, rfl⟩ := Option.map_eq_some_iff.mp there
      have member := List.mem_of_getElem? at_
      cases followed _ member with
      | row e => exact ⟨e, rfl⟩
      | empty absurd => cases absurd
      | @broken e _ => exact absurd member (unbroken e)

theorem linkElements_gaps (followed : ∀ link ∈ links, Followed entry false link) :
    Supplies (Listing here entry) (linkElements (σ := σ) here loc false 0 links) := by
  refine ⟨fun r e failed => ?_, fun r mild => ?_, fun r os made i o there => ?_⟩
  · obtain ⟨marks, ran, _⟩ := linkElements_marked here loc links 0 r
    rw [ran] at failed
    cases failed
  · obtain ⟨marks, ran, marked⟩ := linkElements_marked here loc links 0 r
    rw [ran]
    exact ⟨mild.absorbed, mild.caught, marked.mild followed mild⟩
  · obtain ⟨marks, ran, marked⟩ := linkElements_marked here loc links 0 r
    rw [ran] at made ⊢
    obtain rfl := Except.ok.inj made
    rw [List.getElem?_map] at there
    obtain ⟨link, at_, rfl⟩ := Option.map_eq_some_iff.mp there
    have own := marked.own i link at_
    rw [Nat.zero_add] at own
    cases followed _ (List.mem_of_getElem? at_) with
    | row e => exact .inl ⟨e, rfl⟩
    | empty _ => exact .inr ⟨rfl, by simp [own, Link.mark]⟩
    | broken _ => exact .inr ⟨rfl, by simp [own, Link.mark]⟩

-- A list of what references have led to: rows, and nulls at marked positions.
theorem linkElements_supplies {required : Bool}
    (followed : ∀ link ∈ links, Followed entry required link) :
    Supplies (Listing here entry) (linkElements (σ := σ) here loc required 0 links) := by
  cases required with
  | true => exact linkElements_full followed
  | false => exact linkElements_gaps followed

end

variable {s : Schema} {type : TypeExpr} {shape : FieldShape} {here : Path} {loc : Location}

-- What is handed on for a field of a type, if anything is.
def Suited (s : Schema) (type : TypeExpr) (here : Path)
    (marks : List (Path × Option ResponseError)) (found : Option Outcome) : Prop :=
  ∀ o, found = some o → s.Suits marks type here o

theorem nothing_suited (marks : List (Path × Option ResponseError)) :
    Suited s type here marks none := fun _ absurd => nomatch absurd

theorem links_supply (rows : s.Rows type shape) {table : String} {items required : Bool}
    (kind : shape.kind = .referenceList table items) {links : List Link}
    (followed : ∀ link ∈ links, Followed shape.entry required link) :
    Supplies (Suited s type here) (linkElements here loc required 0 links >>= fun os =>
      pure (some (.list os)) : Resolving σ (Option Outcome)) := by
  refine (linkElements_supplies followed).map fun marks os listing o same => ?_
  obtain rfl := Option.some.inj same
  exact rows.list kind listing

theorem root_supplies (b : Backend σ) (argument : String) (rows : s.Rows type shape)
    (reference : shape.kind ≠ .scalar) (arguments : Arguments) :
    Supplies (Suited s type here) (root b argument shape here loc arguments) := by
  unfold root
  split
  · rename_i kind
    exact absurd kind reference
  · exact .pure nothing_suited
  · rename_i table d kind _
    refine .ofGives (rootRow_gives table shape.entry argument d) (rootRow_polite b _ _ _ d) ?_
    intro _ _ found shows marks o same
    obtain ⟨e, _, rfl⟩ := shows o same
    exact rows.single kind e
  · rename_i table items ids kind _
    have looked : Supplies (fun _ found => ∀ o, some o ∈ found → ∃ e : Entry, o = e.outcome shape.entry)
        (rootRows b argument table shape.entry ids) := by
      refine .ofGives (rootRows_gives table shape.entry argument ids) (rootRows_polite b _ _ _ ids) ?_
      intro _ _ found shows _ o member
      obtain ⟨e, _, rfl⟩ := shows o member
      exact ⟨e, rfl⟩
    refine looked.bind fun found ⟨_, shown⟩ => ?_
    have followed : ∀ link ∈ found.map Link.ofRow, Followed shape.entry false link := by
      intro link member
      obtain ⟨row, there, rfl⟩ := List.mem_map.mp member
      cases row with
      | none => exact .empty rfl
      | some o =>
        obtain ⟨e, rfl⟩ := shown o there
        exact .row e
    rw [rootElements_eq]
    exact links_supply rows kind followed
  · exact .throw (ResolveProblem.error_external _)

theorem reference_supplies (b : Backend σ) (column : String) (rows : s.Rows type shape)
    (reference : shape.kind ≠ .scalar) (row : Row) :
    Supplies (Suited s type here) (Resolve.reference b column shape here loc (.row row)) := by
  have there : Supplies (fun _ row' => row' = row) (liftM (parentRow (.row row)) : Resolving σ Row) :=
    .pure fun _ => rfl
  refine there.bind fun row' held => ?_
  obtain ⟨_, rfl⟩ := held
  cases kind : shape.kind with
  | scalar => exact absurd kind reference
  | reference table =>
    have led : Supplies (fun _ => Followed shape.entry shape.nonNull)
        (follow b column table shape.entry shape.nonNull (stored? row' column)) :=
      .ofGives (follow_followed column table shape.entry shape.nonNull _)
        (follow_polite column table shape.entry shape.nonNull _) fun _ _ _ followed _ => followed
    refine led.bind fun link held => ?_
    obtain ⟨_, followed⟩ := held
    cases followed with
    | row e =>
      refine .pure fun marks o same => ?_
      obtain rfl := Option.some.inj same
      exact rows.single kind e
    | empty _ => exact .pure nothing_suited
    | broken external => exact .throw external
  | referenceList table required =>
    have several (items : List Value) : Supplies (Suited s type here)
        (followAll b column table shape.entry required items >>= fun links =>
          linkElements here loc required 0 links >>= fun os => Pure.pure (some (.list os))) := by
      have led : Supplies (fun _ links => ∀ link ∈ links, Followed shape.entry required link)
          (followAll b column table shape.entry required items) :=
        .ofGives (followAll_followed column table shape.entry required items)
          (followAll_polite column table shape.entry required items) fun _ _ _ followed _ => followed
      refine led.bind fun links held => ?_
      obtain ⟨_, followed⟩ := held
      exact links_supply rows kind followed
    cases stored? row' column with
    | none =>
      dsimp only
      split
      · exact .throw (by simp [GraphError.internal_iff])
      · exact .pure nothing_suited
    | some v =>
      cases v with
      | array items => exact several items
      | _ => exact .throw (by simp [GraphError.internal_iff])

end Resolve

-- What a schema has found out about the type of a field that has a resolver, and about the type that
-- the field belongs to.
inductive Schema.Kinds (s : Schema) (type : String) (f : TypeExpr) : Resolver → Prop where
  | root {argument : String} {shape : FieldShape} : s.Rows f shape → shape.kind ≠ .scalar →
      Kinds s type f (.root argument shape)
  | reference {column : String} {shape : FieldShape} : s.Rows f shape → shape.kind ≠ .scalar →
      s.document.kindOf type = some .table → Kinds s type f (.reference column shape)
  | column {name : String} : s.document.kindOf f.name = some .leaf →
      s.document.kindOf type = some .table ∨ s.document.kindOf type = some .entry →
      Kinds s type f (.column name)
  | value : s.document.kindOf f.name = some .table → s.document.kindOf type = some .entry →
      Kinds s type f .value
  | mutation {plan : MutationPlan} :
      (∀ stamp marks here, s.Suits marks f here (Commit.result plan stamp)) →
      Kinds s type f (.mutation plan)

namespace Schema.Grounded

variable {s : Schema} (grounded : s.Grounded)

include grounded

theorem kindOf_table {type : String} {fields : List FieldDef}
    (member : (type, fields) ∈ s.document.tables) : s.document.kindOf type = some .table := by
  obtain ⟨known, plain⟩ := List.mem_filter.mp member
  simp only [Bool.and_eq_true, Bool.not_eq_true'] at plain
  have declared := Document.objectFields?_of_mem grounded.named.nodup known
  obtain ⟨t, found, object⟩ := Option.bind_eq_some_iff.mp declared
  unfold TypeDef.objectFields? at object
  split at object
  · rename_i body
    rw [grounded.kindOf_object found body, plain.1, plain.2]
    rfl
  · cases object

theorem kindOf_entryObject {type : String} {fields : List FieldDef}
    (member : (type, fields) ∈ s.document.entryObjects) :
    s.document.kindOf type = some .entry := by
  obtain ⟨table, wraps⟩ := Option.isSome_iff_exists.mp (List.mem_filter.mp member).2
  exact grounded.kindOf_entry wraps

-- What an entry holds is an ordinary row.
theorem kindOf_held {entry table : String} (wrapped : s.document.entryTable? entry = some table) :
    s.document.kindOf table = some .table := by
  obtain ⟨plain, t, fields, declared, object⟩ := grounded.held_object wrapped
  have single : s.document.isEntry table = false := by
    rw [Document.isEntry, (grounded.wraps wrapped).table]
    rfl
  rw [grounded.kindOf_object declared object, plain, single]
  rfl

theorem result_suits {f : FieldDef} {plan : MutationPlan} (mutates : s.document.Mutates f plan)
    (stamp : Versionstamp) (marks : List (Path × Option ResponseError)) (here : Path) :
    s.Suits marks f.type here (Commit.result plan stamp) := by
  obtain ⟨shape, classified, accepted⟩ := Document.bind_ok mutates.result
  unfold Commit.result
  split at accepted
  · split at accepted
    · rename_i text
      rw [← Except.ok.inj accepted]
      simp only [Bool.and_eq_true, Bool.not_eq_true', Bool.or_eq_true, decide_eq_true_eq] at text
      obtain ⟨single, named⟩ := text
      have builtin : builtinScalars.contains f.type.name = true := by
        rcases named with named | named <;> rw [named] <;> decide
      obtain ⟨t, known, body⟩ := grounded.type?_builtin builtin
      cases type : f.type with
      | list item nonNull =>
        rw [type] at single
        cases single
      | named name nonNull =>
        rw [type] at known
        refine ⟨t, known, ?_⟩
        rw [body]
        exact ⟨stamp.text, rfl⟩
    · cases accepted
  · rename_i result kind
    split at accepted
    · cases accepted
    · rename_i plain
      split at accepted
      · rw [← Except.ok.inj accepted]
        have rows := FieldShape.classify_rows classified (by simp [kind])
        have table : s.document.kindOf f.type.name = some .table := by
          rcases rows with ⟨table, _⟩ | ⟨_, entry⟩
          · exact table
          · exact absurd entry plain
        have object := grounded.object_of_kindOf (.inl table)
        have shown : s.showsEntries f.type.name = false := by simp [showsEntries, table]
        have row := RowFor.plain shown [(stampField, .string stamp.text)]
        rw [FieldShape.classify_reference classified kind]
        exact .row object row
      · cases accepted
  · cases accepted

theorem kinds {type field : String} {t : TypeDef} {f : FieldDef} {r : Resolver}
    (known : s.catalog.type? type = some t) (declared : t.field? field = some f)
    (resolves : FieldMap.get? s.resolvers type field = some r) : s.Kinds type f.type r := by
  have rows {shape : FieldShape} (shaped : r.shape? = some shape) (reference : shape.kind ≠ .scalar) :
      s.Rows f.type shape := by
    obtain ⟨entry, inside, fields, found, object, _⟩ :=
      grounded.rows known declared resolves shaped reference
    exact ⟨grounded.classified known declared resolves shaped, entry, inside, fields, found, object⟩
  obtain ⟨f₀, rfl, serves⟩ := grounded.meets known declared resolves
  cases serves with
  | root _ reference => exact .root (rows rfl reference) reference
  | reference member _ reference =>
    exact .reference (rows rfl reference) reference (grounded.kindOf_table member)
  | column member classified scalar =>
    exact .column (FieldShape.classify_leaf classified scalar) (.inl (grounded.kindOf_table member))
  | shown member inside other =>
    obtain ⟨held, holds⟩ := Option.isSome_iff_exists.mp (List.mem_filter.mp member).2
    have scalar := (grounded.entry_field holds member inside).2 other
    refine .column ?_ (.inr (grounded.kindOf_entryObject member))
    exact if_pos scalar
  | value member _ _ =>
    exact .value (grounded.kindOf_held (grounded.value_held known declared resolves))
      (grounded.kindOf_entryObject member)
  | mutation _ mutates =>
    have result := grounded.result_suits mutates
    exact .mutation result

end Schema.Grounded

-- Only a list whose elements may be null is marked with errors.
theorem Resolved.mild {b : Backend σ} {here : Path} {resolver : Resolver} {ops : List Operation}
    {r r' : Run σ} {result : Except GraphError (Option Outcome)}
    (resolved : Resolved b here resolver ops r result r') (strict : ¬ Lenient resolver)
    (mild : r.Mild) : r'.Mild := by
  refine ⟨resolved.absorbed ▸ mild.absorbed, resolved.caught ▸ mild.caught, fun q e found => ?_⟩
  rcases resolved.marks q with same | ⟨j, e', _, there, handed⟩
  · exact mild.marks q e (same ▸ found)
  · obtain rfl := Option.some.inj (there.symm.trans found)
    exact absurd (handed e rfl).2.1 strict

theorem Commit.mutation_supplies {s : Schema} {type : TypeExpr} (b : Backend σ) {plan : MutationPlan}
    (suits : ∀ stamp marks here, s.Suits marks type here (result plan stamp)) (here : Path)
    (arguments : Arguments) : Supplies (Resolve.Suited s type here) (mutation b plan arguments) := by
  refine ⟨mutation_polite b plan arguments, fun r mild => ?_, fun r found made o same => ?_⟩
  · refine (mutation_resolved b here plan arguments r).mild ?_ mild
    rintro ⟨_, _, _, absurd, _⟩
    cases absurd
  · subst same
    rcases ran : mutation b plan arguments r with ⟨result, r'⟩
    rw [ran] at made
    obtain rfl : result = .ok (some o) := made
    obtain ⟨stamp, rfl⟩ := mutation_result ran
    exact suits stamp _ here

-- The resolver of a root, reference or mutation field.
def Resolver.Composes : Resolver → Prop
  | .root _ _ | .reference _ _ | .mutation _ => True
  | .column _ | .value => False

-- Whatever the parent is, such a resolver hands on a value of the kind that its field asks for.
theorem Execution.resolver_suits {x : Execution σ} {type : String} {f : TypeExpr}
    {resolver : Resolver} (kinds : x.schema.Kinds type f resolver) (composes : resolver.Composes)
    {here : Path} {loc : Location} {arguments : Arguments} {parent : Outcome} {r : Run σ} {o : Outcome}
    (ran : (x.resolver here loc arguments parent resolver r).1 = .ok (some o)) :
    x.schema.Suits (x.resolver here loc arguments parent resolver r).2.marks f here o := by
  cases kinds with
  | root rows reference =>
    exact (root_supplies x.backend _ rows reference arguments).gives r _ ran o rfl
  | reference rows reference =>
    cases parent with
    | row row => exact (reference_supplies x.backend _ rows reference row).gives r _ ran o rfl
    | leaf d => cases ran
    | list items => cases ran
  | mutation suits =>
    exact (Commit.mutation_supplies x.backend suits here arguments).gives r _ ran o rfl
  | column => exact composes.elim
  | value => exact composes.elim

-- What an object of a type has to be for its fields to be resolved.
structure Schema.Holds (s : Schema) (t : TypeDef) (o : Outcome) : Prop where
  known : s.catalog.type? t.name = some t
  row : s.document.kindOf t.name = some .table ∨ s.document.kindOf t.name = some .entry →
    s.RowFor t.name o

-- What is handed on for a field: a value of the kind that it asks for, or one whose objects are in
-- order.
def Schema.Sound (s : Schema) (type : TypeExpr) (here : Path)
    (marks : List (Path × Option ResponseError)) (found : Option Outcome) : Prop :=
  ∀ o, found = some o → s.Suits marks type here o ∨ Fits s.catalog s.Holds type o

-- A leaf type asks nothing of its values.
theorem Schema.fits_leaf {s : Schema} {type : TypeExpr}
    (leaf : s.document.kindOf type.name = some .leaf) (o : Outcome) :
    Fits s.catalog s.Holds type o := by
  have all (t : TypeDef) (known : s.catalog.type? type.name = some t) : ∀ o, s.Holds t o := by
    intro o
    refine ⟨Catalog.type?_name known, ?_⟩
    rw [Catalog.name_of_type? known, leaf]
    rintro (absurd | absurd) <;> cases absurd
  have every : Fits s.catalog (fun t _ => ∀ o, s.Holds t o) type o := fits_of_type all o
  exact every.imp fun t o holds => holds o

theorem Resolve.column_supplies {s : Schema} {type : TypeExpr} {here : Path}
    (leaf : s.document.kindOf type.name = some .leaf) (name : String) (row : Row) :
    Supplies (σ := σ) (s.Sound type here) (liftM (column name (.row row))) := by
  refine .lift (fun e failed => ?_) fun found _ marks o _ => .inr (s.fits_leaf leaf o)
  unfold column at failed
  simp only [parentRow, bind, Except.bind] at failed
  split at failed
  · rename_i v _
    cases shown : v.toDatum with
    | ok d =>
      rw [shown] at failed
      cases failed
    | error e' =>
      rw [shown] at failed
      obtain rfl := Except.error.inj failed
      obtain ⟨f, rfl⟩ := Value.toDatum_shows v e' shown
      exact ResolveProblem.error_external _
  · cases failed

theorem Resolve.value_supplies {s : Schema} {type : TypeExpr} {here : Path}
    (table : s.document.kindOf type.name = some .table) {row held : Row}
    (holds : row.column? valueField = some (.object held)) :
    Supplies (σ := σ) (s.Sound type here) (liftM (value (.row row))) := by
  have found : value (.row row) = .ok (some (.row held)) := by
    simp only [value, parentRow, bind, Except.bind, holds]
  rw [found]
  refine .pure fun marks o same => .inr ?_
  obtain rfl := Option.some.inj same
  have all (t : TypeDef) (known : s.catalog.type? type.name = some t) (held : Row) :
      s.Holds t (.row held) := by
    refine ⟨Catalog.type?_name known, fun _ => ?_⟩
    rw [Catalog.name_of_type? known]
    exact .plain (by simp [Schema.showsEntries, table]) held
  cases type with
  | named name nonNull => exact fun t known => all t known held
  | list item nonNull => exact fun items absurd => nomatch absurd

-- What a resolver can read its parent as.
def Resolver.Takes : Resolver → Outcome → Prop
  | .column _, o | .reference _ _, o => ∃ row, o = .row row
  | .value, o => ∃ row held, o = .row row ∧ row.column? valueField = some (.object held)
  | .root _ _, _ | .mutation _, _ => True

theorem Schema.Kinds.takes {s : Schema} {type : TypeDef} {f : TypeExpr} {resolver : Resolver}
    (kinds : s.Kinds type.name f resolver) {parent : Outcome} (holds : s.Holds type parent) :
    resolver.Takes parent := by
  cases kinds with
  | root => trivial
  | mutation => trivial
  | reference _ _ table =>
    obtain ⟨row, same, _⟩ := holds.row (.inl table)
    exact ⟨row, same⟩
  | column _ shown =>
    obtain ⟨row, same, _⟩ := holds.row shown
    exact ⟨row, same⟩
  | value _ entry =>
    obtain ⟨row, same, wrapped⟩ := holds.row (.inr entry)
    obtain ⟨held, found⟩ := wrapped (by simp [Schema.showsEntries, entry])
    exact ⟨row, held, same, found⟩

-- A resolver that can read its parent never fails with a fault of the program, and what it hands on
-- is in order.
theorem Execution.resolver_supplies {x : Execution σ} {type : String} {f : TypeExpr}
    {resolver : Resolver} (kinds : x.schema.Kinds type f resolver) {parent : Outcome}
    (takes : resolver.Takes parent) (here : Path) (loc : Location) (arguments : Arguments) :
    Supplies (x.schema.Sound f here) (x.resolver here loc arguments parent resolver) := by
  have sound (marks : List (Path × Option ResponseError)) (found : Option Outcome)
      (suited : Resolve.Suited x.schema f here marks found) : x.schema.Sound f here marks found :=
    fun o same => .inl (suited o same)
  cases kinds with
  | root rows reference =>
    exact (Resolve.root_supplies x.backend _ rows reference arguments).imp sound
  | reference rows reference =>
    obtain ⟨row, rfl⟩ := takes
    exact (Resolve.reference_supplies x.backend _ rows reference row).imp sound
  | column leaf =>
    obtain ⟨row, rfl⟩ := takes
    exact Resolve.column_supplies leaf _ row
  | value table =>
    obtain ⟨row, held, rfl, found⟩ := takes
    exact Resolve.value_supplies table found
  | mutation suits =>
    exact (Commit.mutation_supplies x.backend suits here arguments).imp sound

end RowGraph
