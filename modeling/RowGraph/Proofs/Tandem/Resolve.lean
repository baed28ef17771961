import RowGraph.Proofs.Schema.Entries
import RowGraph.Proofs.Tandem.Alongside
import RowGraph.Proofs.Tandem.Inputs
/-!
The resolvers on two stores that answer alike. Ids in either form lead to the same rows, and what is
made of the rows is alike. Main statement: this is so for every resolver that a field of a type has.
-/

namespace RowGraph

variable {σ σ' : Type}

namespace Tandem

variable {s : Schema} {b : Backend σ} {b' : Backend σ'} {t : Tandem s b b'} {exact : Prop}

namespace Along

theorem fetch (key : Key) :
    t.Along exact GraphError.Like (Option.Rel (Entry.Alike s key.table)) (Resolve.fetch b key)
      (Resolve.fetch b' key) := by
  have moved (r : Run σ) : (Resolve.fetch b key r).2 = { r with store := (b.get key r.store).2 } := by
    unfold Resolve.fetch
    rcases b.get key r.store with ⟨_ | _, _⟩ <;> rfl
  refine ⟨fun r lost => ?_, fun r r' near => ?_⟩
  · rw [moved]
    exact t.lost_get key r.store lost
  · rcases t.get key _ _ near.store with lost | ⟨agree, level⟩
    · rw [moved]
      exact .inl lost
    · unfold Resolve.fetch
      rcases answer : b.get key r.store with ⟨y, u⟩
      rcases answer' : b'.get key r'.store with ⟨y', u'⟩
      rw [answer, answer'] at agree level
      cases agree with
      | ok same => exact .inr ⟨.ok same, near.moved level⟩
      | error _ => exact .inr ⟨.error (.store _ _), near.moved level⟩

theorem send (op : Operation) :
    t.Along exact GraphError.Like Eq (Commit.send b op) (Commit.send b' op) := by
  have moved (r : Run σ) : (Commit.send b op r).2 = { r with store := (b.commit op r.store).2 } := by
    unfold Commit.send
    rcases b.commit op r.store with ⟨_ | _, _⟩ <;> rfl
  refine ⟨fun r lost => ?_, fun r r' near => ?_⟩
  · rw [moved]
    exact t.lost_commit op r.store lost
  · rcases t.commit op _ _ near.store with lost | ⟨agree, level⟩
    · rw [moved]
      exact .inl lost
    · unfold Commit.send
      rcases answer : b.commit op r.store with ⟨y, u⟩
      rcases answer' : b'.commit op r'.store with ⟨y', u'⟩
      rw [answer, answer'] at agree level
      cases agree with
      | ok same => exact .inr ⟨.ok same, near.moved level⟩
      | error _ => exact .inr ⟨.error (.store _ _), near.moved level⟩

theorem nullElement (path : Path) {loc loc' : Location} (place : exact → loc' = loc) (index : Nat)
    (e : Option GraphError) :
    t.Along exact GraphError.Like Eq (Resolve.nullElement path loc index e)
      (Resolve.nullElement path loc' index e) := by
  refine ⟨fun _ lost => lost, fun r r' near => .inr ⟨.ok rfl, ?_⟩⟩
  refine near.setMark _ ?_
  cases e with
  | none => exact .none
  | some e => exact .some ((GraphError.Like.same e).raisedAt place)

section

variable {type table : String} {entry : Bool} (shows : s.ShowsRows type table entry)

include shows

theorem rootRow (argument : String) {d d' : Datum} (same : d.SameId d') :
    t.Along exact GraphError.Like (Option.Rel (Outcome.Like s type))
      (Resolve.rootRow b argument table entry d) (Resolve.rootRow b' argument table entry d') := by
  unfold Resolve.rootRow
  rw [same.argumentId]
  have given : t.Along exact GraphError.Like Eq
      (liftM (Resolve.argumentId argument d) : Resolving σ RowId)
      (liftM (Resolve.argumentId argument d) : Resolving σ' RowId) :=
    result (Agree.refl .same (fun _ => rfl) _)
  refine given.bind (fun _ => rfl) ?_
  rintro id _ rfl
  refine (fetch ⟨table, id⟩).bind (Option.rel_refl .refl) fun e e' found => pure ?_
  cases found with
  | none => exact .none
  | some alike => exact .some (shows.like alike)

theorem rootRows (argument : String) {ds ds' : List Datum}
    (same : List.Forall₂ Datum.SameId ds ds') :
    t.Along exact GraphError.Like (List.Forall₂ (Option.Rel (Outcome.Like s type)))
      (Resolve.rootRows b argument table entry ds) (Resolve.rootRows b' argument table entry ds') := by
  induction same with
  | nil => exact pure .nil
  | @cons d d' rest rest' same _ ih =>
    have later (o o' : Option Outcome) (row : Option.Rel (Outcome.Like s type) o o') :
        t.Along exact GraphError.Like (List.Forall₂ (Option.Rel (Outcome.Like s type)))
          (Resolve.rootRows b argument table entry rest >>= fun rows => Pure.pure (o :: rows))
          (Resolve.rootRows b' argument table entry rest' >>= fun rows => Pure.pure (o' :: rows)) := by
      refine ih.bind (fun _ => List.forall₂_same.mpr fun _ _ => Option.rel_refl .same _) ?_
      exact fun rows rows' more => pure (.cons row more)
    unfold Resolve.rootRows
    rw [same.isNull]
    split
    · exact (pure .none).bind (Option.rel_refl .same) later
    · exact (rootRow shows argument same).bind (Option.rel_refl .same) later

end

theorem rootElements {type : String} (path : Path) {loc loc' : Location} (place : exact → loc' = loc)
    {rows rows' : List (Option Outcome)}
    (alike : List.Forall₂ (Option.Rel (Outcome.Like s type)) rows rows') (index : Nat) :
    t.Along exact GraphError.Like (List.Forall₂ (Outcome.Like s type))
      (Resolve.rootElements path loc index rows) (Resolve.rootElements path loc' index rows') := by
  have refl (os : List Outcome) : List.Forall₂ (Outcome.Like s type) os os :=
    List.forall₂_same.mpr fun _ _ => .same _
  induction alike generalizing index with
  | nil => exact pure .nil
  | cons row _ ih =>
    cases row with
    | some like => exact (ih (index + 1)).bind refl fun os os' more => pure (.cons like more)
    | none =>
      refine (nullElement path place index none).bind (fun _ => rfl) fun _ _ _ => ?_
      exact (ih (index + 1)).bind refl fun os os' more => pure (.cons (.same _) more)

-- What is looked up is put into a list.
theorem listed {α : Type} {type : TypeExpr} {name : String} {E : α → α → Prop} (refl : ∀ a, E a a)
    (many : ∀ items items', List.Forall₂ (Outcome.Like s name) items items' →
      Outcome.Alike s type (.list items) (.list items'))
    {x : Resolving σ α} {x' : Resolving σ' α} (first : t.Along exact GraphError.Like E x x')
    {f : α → Resolving σ (List Outcome)} {f' : α → Resolving σ' (List Outcome)}
    (rest : ∀ a a', E a a' →
      t.Along exact GraphError.Like (List.Forall₂ (Outcome.Like s name)) (f a) (f' a')) :
    t.Along exact GraphError.Like (Option.Rel (Outcome.Alike s type))
      (x >>= fun a => f a >>= fun os => Pure.pure (some (.list os)))
      (x' >>= fun a => f' a >>= fun os => Pure.pure (some (.list os))) := by
  refine first.bind refl fun a a' same => ?_
  refine (rest a a' same).bind (fun os => List.forall₂_same.mpr fun _ _ => .same _) ?_
  exact fun os os' items => pure (.some (many os os' items))

end Along

-- A null argument is left out on both sides.
theorem argument_alike {argument : String} {resolver : Resolver} {as as' : Arguments}
    (alike : Arguments.Alike (some resolver) as as') :
    Option.Rel (Resolver.Varies (some resolver) argument) (Resolve.argument? as argument)
      (Resolve.argument? as' argument) := by
  have shown (as : Arguments) : Resolve.argument? as argument =
      (Members.get? argument as).filter fun d => !d.isNull := by
    unfold Resolve.argument?
    cases Members.get? argument as with
    | none => rfl
    | some d => cases d <;> rfl
  have found := alike.get? argument
  rw [shown, shown]
  generalize Members.get? argument as = d at found ⊢
  generalize Members.get? argument as' = d' at found ⊢
  cases found with
  | none => exact .none
  | some same =>
    simp only [Option.filter_some, same.isNull]
    split
    · exact .some same
    · exact .none

namespace Along

-- A lookup by id, or by ids, in either form.
theorem root {type : TypeExpr} {argument : String} {shape : FieldShape}
    (classified : FieldShape.classify s.document.lookup type = .ok shape) (path : Path)
    {loc loc' : Location} (place : exact → loc' = loc) {as as' : Arguments}
    (alike : Arguments.Alike (some (.root argument shape)) as as') :
    t.Along exact GraphError.Like (Option.Rel (Outcome.Alike s type))
      (Resolve.root b argument shape path loc as) (Resolve.root b' argument shape path loc' as') := by
  have single {table : String} (kind : shape.kind = .reference table) {d d' : Datum}
      (same : d.SameId d') : t.Along exact GraphError.Like (Option.Rel (Outcome.Alike s type))
        (Resolve.rootRow b argument table shape.entry d)
        (Resolve.rootRow b' argument table shape.entry d') := by
    have shows := FieldShape.classify_shows classified (by rw [FieldShape.table?, kind])
    refine (rootRow shows argument same).imp fun o o' row => ?_
    cases row with
    | none => exact .none
    | some like => exact .some (FieldShape.alike_one classified kind like)
  have several {table : String} {required : Bool} (kind : shape.kind = .referenceList table required)
      {ds ds' : List Datum} (same : List.Forall₂ Datum.SameId ds ds') :
      t.Along exact GraphError.Like (Option.Rel (Outcome.Alike s type))
        (Resolve.rootRows b argument table shape.entry ds >>= fun rows =>
          Resolve.rootElements path loc 0 rows >>= fun os => Pure.pure (some (.list os)))
        (Resolve.rootRows b' argument table shape.entry ds' >>= fun rows =>
          Resolve.rootElements path loc' 0 rows >>= fun os => Pure.pure (some (.list os))) := by
    have shows := FieldShape.classify_shows classified (by rw [FieldShape.table?, kind])
    exact listed (fun _ => List.forall₂_same.mpr fun _ _ => Option.rel_refl .same _)
      (fun _ _ => FieldShape.alike_many classified kind) (rootRows shows argument same)
      fun rows rows' more => rootElements path place more 0
  have found : Option.Rel (Resolver.Varies (some (.root argument shape)) argument)
      (Resolve.argument? as argument) (Resolve.argument? as' argument) := argument_alike alike
  unfold Resolve.root
  generalize Resolve.argument? as argument = d at found ⊢
  generalize Resolve.argument? as' argument = d' at found ⊢
  cases kind : shape.kind with
  | scalar => exact throw (.same _)
  | reference table =>
    cases found with
    | none => exact pure .none
    | some same =>
      obtain rfl | ⟨_, known, takes⟩ := same
      · exact single kind (.same _)
      · obtain rfl := Option.some.inj known
        cases takes with
        | id _ same => exact single kind same
        | ids other => cases kind.symm.trans other
  | referenceList table required =>
    cases found with
    | none => exact pure .none
    | some same =>
      obtain rfl | ⟨_, known, takes⟩ := same
      · rename_i d
        cases d with
        | list ids => exact several kind (List.forall₂_same.mpr fun d _ => .same d)
        | _ => exact throw (.same _)
      · obtain rfl := Option.some.inj known
        cases takes with
        | id other => cases kind.symm.trans other
        | ids _ same => exact several kind same

end Along

end Tandem

-- What is stored in a column that refers to rows.
inductive FieldShape.Linked (shape : FieldShape) : Value → Value → Prop where
  | same (v : Value) : Linked shape v v
  | one {table : String} {v v' : Value} : shape.kind = .reference table → v.SameId v' →
      Linked shape v v'
  | many {table : String} {required : Bool} {vs vs' : List Value} :
      shape.kind = .referenceList table required → List.Forall₂ Value.SameId vs vs' →
      Linked shape (.array vs) (.array vs')

inductive Resolve.Link.Alike (s : Schema) (type : String) : Link → Link → Prop where
  | row {o o' : Outcome} : Outcome.Like s type o o' → Alike s type (.row o) (.row o')
  | empty : Alike s type .empty .empty
  | broken (e : GraphError) : Alike s type (.broken e) (.broken e)

theorem Resolve.Link.Alike.refl {s : Schema} {type : String} (link : Link) :
    Link.Alike s type link link := by
  cases link with
  | row o => exact .row (.same o)
  | empty => exact .empty
  | broken e => exact .broken e

theorem Schema.Stores.stored {s : Schema} {type column : String} {shape : FieldShape}
    (resolves : FieldMap.get? s.resolvers type column = some (.reference column shape))
    {row row' : Row} (alike : Row.Alike s type row row') :
    Option.Rel shape.Linked (Resolve.stored? row column) (Resolve.stored? row' column) := by
  have present (v v' : Value) (linked : shape.Linked v v') (same : v'.isNullish = v.isNullish) :
      Option.Rel shape.Linked (if v.isNullish then none else some v)
        (if v'.isNullish then none else some v') := by
    rw [same]
    split
    · exact .none
    · exact .some linked
  have known {shape' : FieldShape}
      (there : FieldMap.get? s.resolvers type column = some (.reference column shape')) :
      shape' = shape := by
    have same := resolves.symm.trans there
    simp only [Option.some.injEq, Resolver.reference.injEq, true_and] at same
    exact same.symm
  have holds := alike column
  unfold Resolve.stored?
  generalize row.column? column = v at holds ⊢
  generalize row'.column? column = v' at holds ⊢
  cases holds with
  | same => exact Option.rel_refl .same _
  | one there kind same =>
    obtain rfl := known there
    exact present _ _ (.one kind same) same.isNullish
  | many there kind each =>
    obtain rfl := known there
    exact present _ _ (.many kind each) rfl

-- A column that is shown as it is stored is the same in rows that are alike.
theorem Row.Alike.column {s : Schema} {type field : String} {r : Resolver}
    (resolves : FieldMap.get? s.resolvers type field = some r)
    (plain : ∀ shape, r ≠ .reference field shape) {row row' : Row}
    (alike : Row.Alike s type row row') : row'.column? field = row.column? field := by
  have holds := alike field
  generalize row.column? field = v at holds ⊢
  generalize row'.column? field = v' at holds ⊢
  cases holds with
  | same => rfl
  | one there => exact absurd (Option.some.inj (resolves.symm.trans there)) (plain _)
  | many there => exact absurd (Option.some.inj (resolves.symm.trans there)) (plain _)

namespace Tandem

variable {s : Schema} {b : Backend σ} {b' : Backend σ'} {t : Tandem s b b'} {exact : Prop}

namespace Along

section

variable {type table : String} {entry : Bool} (shows : s.ShowsRows type table entry)

include shows

theorem follow (column : String) (required : Bool) {v v' : Option Value}
    (same : Option.Rel Value.SameId v v') :
    t.Along exact GraphError.Like (Resolve.Link.Alike s type)
      (Resolve.follow b column table entry required v)
      (Resolve.follow b' column table entry required v') := by
  unfold Resolve.follow
  cases same with
  | none => exact pure (.refl _)
  | some same =>
    simp only [same.referencedId]
    split
    · exact pure (.refl _)
    · rename_i id _
      refine (fetch ⟨table, id⟩).bind (Option.rel_refl .refl) fun e e' found => ?_
      cases found with
      | none => exact pure (.refl _)
      | some alike => exact pure (.row (shows.like alike))

theorem followAll (column : String) (required : Bool) {vs vs' : List Value}
    (same : List.Forall₂ Value.SameId vs vs') :
    t.Along exact GraphError.Like (List.Forall₂ (Resolve.Link.Alike s type))
      (Resolve.followAll b column table entry required vs)
      (Resolve.followAll b' column table entry required vs') := by
  induction same with
  | nil => exact pure .nil
  | cons same _ ih =>
    refine (follow shows column required same.present?).bind .refl fun link link' first => ?_
    refine ih.bind (fun _ => List.forall₂_same.mpr fun _ _ => .refl _) fun links links' more => ?_
    exact pure (.cons first more)

end

theorem linkElements {type : String} (path : Path) {loc loc' : Location} (place : exact → loc' = loc)
    (required : Bool) {links links' : List Resolve.Link}
    (alike : List.Forall₂ (Resolve.Link.Alike s type) links links') (index : Nat) :
    t.Along exact GraphError.Like (List.Forall₂ (Outcome.Like s type))
      (Resolve.linkElements path loc required index links)
      (Resolve.linkElements path loc' required index links') := by
  have refl (os : List Outcome) : List.Forall₂ (Outcome.Like s type) os os :=
    List.forall₂_same.mpr fun _ _ => .same _
  induction alike generalizing index with
  | nil => exact pure .nil
  | cons link _ ih =>
    cases link with
    | row like => exact (ih (index + 1)).bind refl fun os os' more => pure (.cons like more)
    | empty =>
      refine (nullElement path place index none).bind (fun _ => rfl) fun _ _ _ => ?_
      exact (ih (index + 1)).bind refl fun os os' more => pure (.cons (.same _) more)
    | broken e =>
      unfold Resolve.linkElements
      split
      · exact throw (.same e)
      · refine (nullElement path place index (some e)).bind (fun _ => rfl) fun _ _ _ => ?_
        exact (ih (index + 1)).bind refl fun os os' more => pure (.cons (.same _) more)

-- What a row refers to, if ids are stored in other forms.
theorem reference {own column : String} {type : TypeExpr} {shape : FieldShape}
    (resolves : FieldMap.get? s.resolvers own column = some (.reference column shape))
    (classified : FieldShape.classify s.document.lookup type = .ok shape) (path : Path)
    {loc loc' : Location} (place : exact → loc' = loc) {parent parent' : Outcome}
    (parents : Agree GraphError.Like (Row.Alike s own) (Resolve.parentRow parent)
      (Resolve.parentRow parent')) :
    t.Along exact GraphError.Like (Option.Rel (Outcome.Alike s type))
      (Resolve.reference b column shape path loc parent)
      (Resolve.reference b' column shape path loc' parent') := by
  unfold Resolve.reference
  refine (result parents).bind (.refl s own) fun row row' alike => ?_
  have found := Schema.Stores.stored resolves alike
  cases kind : shape.kind with
  | scalar => exact throw (.same _)
  | reference table =>
    have shows := FieldShape.classify_shows classified (by rw [FieldShape.table?, kind])
    have same : Option.Rel Value.SameId (Resolve.stored? row column) (Resolve.stored? row' column) := by
      generalize Resolve.stored? row column = v at found ⊢
      generalize Resolve.stored? row' column = v' at found ⊢
      cases found with
      | none => exact .none
      | some linked =>
        cases linked with
        | same => exact .some (.same _)
        | one _ same => exact .some same
        | many other => cases kind.symm.trans other
    refine (follow shows column shape.nonNull same).bind .refl fun link link' leads => ?_
    cases leads with
    | row like => exact pure (.some (FieldShape.alike_one classified kind like))
    | empty => exact pure .none
    | broken e => exact throw (.same e)
  | referenceList table required =>
    have several (vs vs' : List Value) (same : List.Forall₂ Value.SameId vs vs') :
        t.Along exact GraphError.Like (Option.Rel (Outcome.Alike s type))
          (Resolve.followAll b column table shape.entry required vs >>= fun links =>
            Resolve.linkElements path loc required 0 links >>= fun os => Pure.pure (some (.list os)))
          (Resolve.followAll b' column table shape.entry required vs' >>= fun links =>
            Resolve.linkElements path loc' required 0 links >>= fun os =>
              Pure.pure (some (.list os))) := by
      have shows := FieldShape.classify_shows classified (by rw [FieldShape.table?, kind])
      exact listed (fun _ => List.forall₂_same.mpr fun _ _ => .refl _)
        (fun _ _ => FieldShape.alike_many classified kind) (followAll shows column required same)
        fun links links' more => linkElements path place required more 0
    generalize Resolve.stored? row column = v at found ⊢
    generalize Resolve.stored? row' column = v' at found ⊢
    cases found with
    | none =>
      simp only
      split
      · exact throw (.same _)
      · exact pure .none
    | some linked =>
      cases linked with
      | same =>
        rename_i v
        cases v with
        | array items => exact several items items (List.forall₂_same.mpr fun v _ => .same v)
        | _ => exact throw (.same _)
      | one other => cases kind.symm.trans other
      | many _ each => exact several _ _ each

end Along

end Tandem

-- The object that a mutation field is given asks for the same operation.
theorem Arguments.Alike.operation {plan : MutationPlan} {as as' : Arguments}
    (alike : Arguments.Alike (some (.mutation plan)) as as') :
    Option.Rel (fun input input' => Commit.operation plan input' = Commit.operation plan input)
      ((Members.get? plan.argument as).bind Datum.asObject?)
      ((Members.get? plan.argument as').bind Datum.asObject?) := by
  have found := alike.get? plan.argument
  generalize Members.get? plan.argument as = d at found ⊢
  generalize Members.get? plan.argument as' = d' at found ⊢
  cases found with
  | none => exact .none
  | some varies =>
    obtain rfl | ⟨_, known, takes⟩ := varies
    · exact Option.rel_refl (fun input => rfl (a := Commit.operation plan input)) _
    · obtain rfl := Option.some.inj known
      cases takes with
      | input same => exact .some same

theorem Tandem.Along.mutation {s : Schema} {b : Backend σ} {b' : Backend σ'} {t : Tandem s b b'}
    {exact : Prop} {plan : MutationPlan} {as as' : Arguments}
    (alike : Arguments.Alike (some (.mutation plan)) as as') :
    t.Along exact GraphError.Like Eq (Commit.mutation b plan as) (Commit.mutation b' plan as') := by
  have collected (input input' : List (String × Datum))
      (same : Commit.operation plan input' = Commit.operation plan input) :
      t.Along exact GraphError.Like Eq
        ((liftM (Commit.operation plan input) : Resolving σ Operation) >>= fun op =>
          if op.isEmpty then Pure.pure none
          else Commit.send b op >>= fun stamp => Pure.pure (stamp.map (Commit.result plan)))
        ((liftM (Commit.operation plan input') : Resolving σ' Operation) >>= fun op =>
          if op.isEmpty then Pure.pure none
          else Commit.send b' op >>= fun stamp => Pure.pure (stamp.map (Commit.result plan))) := by
    rw [same]
    refine Along.bind (V := Eq) (result (Agree.refl .same (fun _ => rfl) _)) (fun _ => rfl) ?_
    rintro op _ rfl
    split
    · exact pure rfl
    · refine (send op).bind (fun _ => rfl) ?_
      rintro stamp _ rfl
      exact pure rfl
  have found := alike.operation
  unfold Commit.mutation
  generalize (Members.get? plan.argument as).bind Datum.asObject? = input at found ⊢
  generalize (Members.get? plan.argument as').bind Datum.asObject? = input' at found ⊢
  cases found with
  | none =>
    refine Along.bind (V := Eq) (throw (.same _)) (fun _ => rfl) fun input _ same => ?_
    exact collected input _ (by rw [same])
  | some same => exact collected _ _ same

-- Rows that are shown as objects of a table.
theorem Outcome.Like.parents {s : Schema} {type : String} {o o' : Outcome} (like : Like s type o o')
    (table : s.document.entryTable? type = none) :
    Agree GraphError.Like (Row.Alike s type) (Resolve.parentRow o) (Resolve.parentRow o') := by
  cases like with
  | same => exact Agree.refl .same (.refl s type) _
  | row alike => exact .ok alike
  | entry wrapped => cases table.symm.trans wrapped

-- A table is no entry type.
theorem Document.table_plain {d : Document} {type : String} {fields : List FieldDef}
    (known : (type, fields) ∈ d.tables) : d.entryTable? type = none := by
  have plain := (List.mem_filter.mp known).2
  simp only [Document.isEntry, Bool.and_eq_true, Bool.not_eq_true', Option.isSome_eq_false_iff,
    Option.isNone_iff_eq_none] at plain
  exact plain.2

namespace Schema.Grounded

variable {s : Schema} (grounded : s.Grounded)

include grounded

-- No field of an entry type is a list.
theorem entry_plain {entry : String} {fields : List FieldDef} {f : FieldDef}
    (known : (entry, fields) ∈ s.document.entryObjects) (inside : f ∈ fields) :
    f.type.isList = false := by
  obtain ⟨table, wrapped⟩ := Option.isSome_iff_exists.mp (List.mem_filter.mp known).2
  have holds := (grounded.entry_field wrapped known inside).1
  unfold Document.wrapped? at holds
  split at holds
  · rename_i all
    have form := List.all_eq_true.mp all f inside
    simp only [Document.isPlain, Bool.and_eq_true, Bool.not_eq_true'] at form
    exact form.1.1
  · cases holds

-- What the fields of rows that are alike show as it is stored.
theorem column_alike {type field name : String} {o o' : Outcome}
    (resolves : FieldMap.get? s.resolvers type field = some (.column name))
    (like : Outcome.Like s type o o') : Resolve.column name o' = Resolve.column name o := by
  obtain ⟨_, _, f, _, _, last, serves⟩ := grounded.serves resolves
  obtain rfl : f.name = field := by simpa using (last?_some last).2
  have named : f.name = name := by cases serves <;> rfl
  subst named
  have stored {row row' : Row} (same : row'.column? f.name = row.column? f.name) :
      Resolve.column f.name (.row row') = Resolve.column f.name (.row row) := by
    have present : Resolve.stored? row' f.name = Resolve.stored? row f.name := by
      unfold Resolve.stored?
      rw [same]
    unfold Resolve.column Resolve.parentRow
    simp only [bind, Except.bind, present]
  cases like with
  | same => rfl
  | row alike => exact stored (alike.column resolves fun _ => by simp)
  | entry wrapped alike =>
    refine stored (alike.wrapped ?_)
    cases serves with
    | column known => cases (Document.table_plain known).symm.trans wrapped
    | shown _ _ other => exact other

-- What an entry holds.
theorem value_alike {type field : String} {known : TypeDef} {f : FieldDef}
    (found : s.catalog.type? type = some known) (declared : known.field? field = some f)
    (resolves : FieldMap.get? s.resolvers type field = some .value) {o o' : Outcome}
    (like : Outcome.Like s type o o') :
    Agree GraphError.Like (Option.Rel (Outcome.Like s f.type.name)) (Resolve.value o)
      (Resolve.value o') := by
  have refl (o : Outcome) : Agree GraphError.Like (Option.Rel (Outcome.Like s f.type.name))
      (Resolve.value o) (Resolve.value o) := Agree.refl .same (Option.rel_refl .same) _
  have held := grounded.value_held found declared resolves
  obtain ⟨_, _, f₀, _, _, last, serves⟩ := grounded.serves resolves
  obtain rfl : f₀.name = field := by simpa using (last?_some last).2
  cases serves with
  | value _ _ named =>
    rw [named] at resolves
    cases like with
    | same => exact refl o
    | @row row row' alike =>
      have same : Resolve.value (.row row') = Resolve.value (.row row) := by
        unfold Resolve.value Resolve.parentRow
        simp only [bind, Except.bind, alike.column resolves fun _ => by simp]
      rw [same]
      exact refl _
    | @entry table e e' wrapped alike =>
      obtain rfl : table = f.type.name := Option.some.inj (wrapped.symm.trans held)
      have shown (e : Entry) : Resolve.value (.row e.wrapped) = .ok (some (.row e.shownRow)) := by
        unfold Resolve.value Resolve.parentRow
        simp only [bind, Except.bind, e.wrapped_value]
      rw [shown, shown]
      exact .ok (.some (.row alike.shownRow))

end Schema.Grounded

end RowGraph
