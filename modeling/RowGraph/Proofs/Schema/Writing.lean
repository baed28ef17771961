import RowGraph.Proofs.Schema.Coverage
import RowGraph.Proofs.Schema.Reordering
/-!
Which mutations a document may declare. What is asked of a mutation field is said of four definitions
that lead to one another: the field, its argument, the input type and the types of its items. Main
statement: the mutation fields of a document get resolvers exactly if each of them is declared so, and
their bindings are the fields of the input type, in document order. Of the items it is asked how deep
their lists are, which nobody looks at.
-/

namespace RowGraph

-- No list of lists.
def TypeExpr.single : TypeExpr → Bool
  | .named _ _ => true
  | .list item _ => !item.isList

namespace Document

def bindsOperation (u : DirectiveUse) : Bool :=
  [WriteKind.create, .update, .delete].any fun op => u.name = op.name

-- The only operation directive of an input field says what its items do, and to which table.
structure Directs (f : InputDef) (op : WriteKind) (table : String) : Prop where
  only : ∃ use, f.directives.filter bindsOperation = [use] ∧ use.name = op.name ∧
    use.argument? tableArgument = some (.string table)

-- An input type whose objects say which row they mean, and which stamp it has unless it is new.
def NamesRows (d : Document) (op : WriteKind) (type : String) : Prop :=
  ∃ fields, d.inputFields? type = some fields ∧ (∃ f ∈ fields, f.name = idColumn) ∧
    (op ≠ .create → ∃ f ∈ fields, f.name = stampField)

-- A field of a mutation input. The items may be asked to be declared in a certain way.
structure Writes (d : Document) (items : TypeExpr → Prop) (f : InputDef) (op : WriteKind)
    (table : String) : Prop where
  directs : Directs f op table
  table : ∃ fields, (table, fields) ∈ d.tables
  items : items f.type
  item : d.NamesRows op f.type.name

-- A text, or an object of a table type with a field for the stamp.
def ShowsStamp (d : Document) (type : TypeExpr) : Prop :=
  type.isList = false ∧ (type.name = "String" ∨ type.name = "ID" ∨
    ∃ fields, (type.name, fields) ∈ d.tables ∧ ∃ f ∈ fields, f.name = stampField)

structure Mutable (d : Document) (items : TypeExpr → Prop) (f : FieldDef) : Prop where
  input : ∃ argument fields, f.arguments = [argument] ∧ argument.type.isList = false ∧
    d.inputFields? argument.type.name = some fields ∧
    ∀ i ∈ fields, ∃ op table, d.Writes items i op table
  nullable : f.type.nonNull = false
  result : d.ShowsStamp f.type

def mutationRoot (d : Document) : List FieldDef :=
  (d.mutation.bind d.objectFields?).getD []

-- The fields of the types that the arguments of a mutation field have.
def inputsOf (d : Document) (f : FieldDef) : List InputDef :=
  f.arguments.flatMap fun a => (d.inputFields? a.type.name).getD []

theorem ofName?_iff {name : String} {op : WriteKind} :
    WriteKind.ofName? name = some op ↔ name = op.name := by
  constructor
  · intro found
    unfold WriteKind.ofName? at found
    split at found
    all_goals cases found
    all_goals rfl
  · rintro rfl
    cases op <;> rfl

theorem bindsOperation_iff {u : DirectiveUse} :
    bindsOperation u = true ↔ ∃ op, WriteKind.ofName? u.name = some op := by
  simp only [bindsOperation, List.any_eq_true, decide_eq_true_eq, ofName?_iff]
  constructor
  · rintro ⟨op, _, named⟩
    exact ⟨op, named⟩
  · rintro ⟨op, named⟩
    exact ⟨op, by cases op <;> simp, named⟩

theorem operationsOf_uses (f : InputDef) :
    (operationsOf f).map Prod.snd = f.directives.filter bindsOperation := by
  unfold operationsOf
  induction f.directives with
  | nil => rfl
  | cons u rest ih =>
    cases found : WriteKind.ofName? u.name with
    | some op =>
      have binds : bindsOperation u = true := bindsOperation_iff.mpr ⟨op, found⟩
      simp [found, binds, ih]
    | none =>
      have other : bindsOperation u = false := by
        rw [Bool.eq_false_iff, ne_eq, bindsOperation_iff]
        rintro ⟨op, named⟩
        cases found.symm.trans named
      simp [found, other, ih]

theorem operationsOf_iff {f : InputDef} {op : WriteKind} {use : DirectiveUse} :
    operationsOf f = [(op, use)] ↔
      f.directives.filter bindsOperation = [use] ∧ use.name = op.name := by
  have named : ∀ p ∈ operationsOf f, p.2.name = p.1.name := by
    intro p member
    obtain ⟨u, _, found⟩ := List.mem_filterMap.mp member
    obtain ⟨op, known, rfl⟩ := Option.map_eq_some_iff.mp found
    exact ofName?_iff.mp known
  rw [← operationsOf_uses]
  constructor
  · intro only
    rw [only] at named ⊢
    exact ⟨rfl, named _ List.mem_cons_self⟩
  · rintro ⟨only, same⟩
    obtain ⟨p, one, rfl⟩ := List.map_eq_singleton_iff.mp only
    have kind := named p (one ▸ List.mem_cons_self)
    rw [same, ← ofName?_iff, ofName?_iff.mpr rfl] at kind
    rw [one, Option.some.inj kind]

theorem table_iff {source : String} {d : Document} (accepted : read source = .ok d)
    {table : String} : d.isTable table = true ↔ ∃ fields, (table, fields) ∈ d.tables := by
  have parted := parted accepted
  constructor
  · intro plays
    obtain ⟨fields, declared⟩ := table_declared plays
    exact ⟨fields, (parted.tables table fields).mpr ⟨declared, plays⟩⟩
  · rintro ⟨fields, member⟩
    exact ((parted.tables table fields).mp member).2

theorem namesRows_iff {d : Document} {op : WriteKind} {type : String} :
    d.NamesRows op type ↔ ∃ fields, d.inputFields? type = some fields ∧
      hasField fields idColumn = true ∧
      (op.needsStamp && !hasField fields stampField) = false := by
  unfold NamesRows hasField
  refine exists_congr fun fields => and_congr_right fun _ => and_congr ?_ ?_
  · simp
  · cases op <;> simp [WriteKind.needsStamp]

-- A binding is found exactly for a field that may write, at any depth of its lists.
theorem binding_iff {source : String} {d : Document} (accepted : read source = .ok d)
    {input : String} {f : InputDef} {b : Binding} :
    d.binding input f = .ok b ↔ b.field = f.name ∧ d.Writes (fun _ => True) f b.op b.table := by
  constructor
  · intro bound
    obtain ⟨named, ⟨use, only, argument⟩, table⟩ := binding_ok bound
    obtain ⟨filtered, kind⟩ := operationsOf_iff.mp only
    refine ⟨named, ⟨⟨use, filtered, kind, argument⟩⟩, (table_iff accepted).mp table, trivial, ?_⟩
    rw [namesRows_iff]
    simp only [binding, only, argument, table, bind, Except.bind, Bool.not_true, Bool.false_eq_true,
      if_false] at bound
    cases declared : d.inputFields? f.type.name with
    | none =>
      rw [declared] at bound
      cases bound
    | some fields =>
      simp only [declared] at bound
      split at bound
      · cases bound
      · rename_i hasId
        split at bound
        · cases bound
        · rename_i hasStamp
          exact ⟨fields, rfl, by simpa using hasId, by simpa using hasStamp⟩
  · rintro ⟨named, ⟨⟨use, filtered, kind, argument⟩⟩, known, _, item⟩
    obtain ⟨fields, declared, hasId, hasStamp⟩ := namesRows_iff.mp item
    have only := operationsOf_iff.mpr ⟨filtered, kind⟩
    have table := (table_iff accepted).mpr known
    simp only [binding, only, argument, table, declared, hasId, hasStamp, bind, Except.bind,
      Bool.not_true, Bool.false_eq_true, if_false]
    rw [← named]

theorem resultOf_list {d : Document} {f : FieldDef} (list : f.type.isList = true)
    {result : MutationResult} : d.resultOf f ≠ .ok result := by
  intro shown
  obtain ⟨shape, classified, shown⟩ := bind_ok shown
  split at shown
  · simp [list] at shown
  · rename_i table single
    rw [FieldShape.classify_reference classified single] at list
    cases list
  · cases shown

theorem kindOf_text {d : Document} {name : String} (text : name = "String" ∨ name = "ID") :
    d.kindOf name = some .leaf := by
  have builtin : builtinScalars.contains name = true := by
    rcases text with rfl | rfl
    · rfl
    · rfl
  rw [kindOf, if_pos builtin]

theorem stamped_table {source : String} {d : Document} (accepted : read source = .ok d)
    {type : String} (table : d.kindOf type = some .table) :
    (∃ fields, (type, fields) ∈ d.tables ∧ ∃ f ∈ fields, f.name = stampField) ↔
      (((d.objectFields? type).getD []).any fun f => f.name = stampField) = true := by
  have nodup := (read_ok accepted).1.nodup
  obtain ⟨fields, member⟩ := (table_iff accepted).mp (decide_eq_true table)
  have declared := (((parted accepted).tables type fields).mp member).1
  rw [objectFields?_of_mem nodup declared, Option.getD_some, List.any_eq_true]
  simp only [decide_eq_true_eq]
  constructor
  · rintro ⟨fields', member', stamped⟩
    have declared' := (((parted accepted).tables type fields').mp member').1
    rw [← objectFields?_iff nodup, objectFields?_of_mem nodup declared] at declared'
    exact Option.some.inj declared' ▸ stamped
  · rintro stamped
    exact ⟨fields, member, stamped⟩

theorem resultOf_named {d : Document} {f : FieldDef} {name : String} {nonNull : Bool}
    (typed : f.type = .named name nonNull) :
    (∃ result, d.resultOf f = .ok result) ↔
      (d.kindOf name = some .leaf ∧ (name = "String" ∨ name = "ID")) ∨
        (d.kindOf name = some .table ∧
          (((d.objectFields? name).getD []).any fun f => f.name = stampField) = true) := by
  simp only [resultOf, typed, FieldShape.classify, FieldShape.ofName, lookup, bind, Except.bind,
    TypeExpr.isList, TypeExpr.name]
  cases d.kindOf name with
  | none => simp
  | some known =>
    cases known with
    | table =>
      by_cases stamped : (((d.objectFields? name).getD []).any fun f => f.name = stampField) = true
      · simp [stamped]
      · simp [stamped]
    | leaf =>
      by_cases text : name = "String" ∨ name = "ID"
      · simp [text]
      · simp [text]
    | entry =>
      cases d.entryTable? name with
      | none => simp
      | some table => simp
    | input => simp
    | abstract => simp

theorem resultOf_iff {source : String} {d : Document} (accepted : read source = .ok d)
    {f : FieldDef} : (∃ result, d.resultOf f = .ok result) ↔ d.ShowsStamp f.type := by
  cases typed : f.type with
  | list item nonNull =>
    have list : f.type.isList = true := by rw [typed]; rfl
    refine ⟨fun ⟨result, shown⟩ => absurd shown (resultOf_list list), fun stamp => ?_⟩
    cases stamp.1
  | named name nonNull =>
    rw [resultOf_named typed]
    constructor
    · rintro (⟨_, text⟩ | ⟨table, stamped⟩)
      · exact ⟨rfl, text.imp_right .inl⟩
      · exact ⟨rfl, .inr (.inr ((stamped_table accepted table).mpr stamped))⟩
    · rintro ⟨_, text | text | ⟨fields, member, stamped⟩⟩
      · exact .inl ⟨kindOf_text (.inl text), .inl text⟩
      · exact .inl ⟨kindOf_text (.inr text), .inr text⟩
      · have table : d.kindOf name = some .table :=
          of_decide_eq_true ((table_iff accepted).mpr ⟨fields, member⟩)
        exact .inr ⟨table, (stamped_table accepted table).mp ⟨fields, member, stamped⟩⟩

-- Of which items the lists are is only asked for where it is looked at.
theorem Writes.mono {d : Document} {items items' : TypeExpr → Prop} {f : InputDef} {op : WriteKind}
    {table : String} (writes : d.Writes items f op table)
    (weaker : items f.type → items' f.type) : d.Writes items' f op table :=
  ⟨writes.directs, writes.table, weaker writes.items, writes.item⟩

theorem Mutable.mono {d : Document} {items items' : TypeExpr → Prop} {f : FieldDef}
    (can : d.Mutable items f) (weaker : ∀ i ∈ d.inputsOf f, items i.type → items' i.type) :
    d.Mutable items' f := by
  obtain ⟨⟨argument, fields, alone, single, declared, each⟩, nullable, result⟩ := can
  refine ⟨⟨argument, fields, alone, single, declared, fun i inside => ?_⟩, nullable, result⟩
  obtain ⟨op, table, writes⟩ := each i inside
  refine ⟨op, table, writes.mono (weaker i ?_)⟩
  rw [inputsOf, alone, List.flatMap_singleton, declared]
  exact inside

-- What the resolver of a mutation field is made of.
structure Makes (d : Document) (f : FieldDef) (plan : MutationPlan) (argument : InputDef)
    (fields : List InputDef) : Prop where
  alone : f.arguments = [argument]
  single : argument.type.isList = false
  declared : d.inputFields? argument.type.name = some fields
  bindings : fields.mapM (d.binding argument.type.name) = .ok plan.bindings
  nullable : f.type.nonNull = false
  result : d.resultOf f = .ok plan.result
  named : plan.argument = argument.name

theorem mutationField_iff {d : Document} {root : String} {f : FieldDef} {e : Derived} :
    d.mutationField root f = .ok e ↔ ∃ plan argument fields, e = (root, f.name, .mutation plan) ∧
      d.Makes f plan argument fields := by
  constructor
  · intro made
    unfold mutationField at made
    cases arguments : f.arguments with
    | nil => rw [arguments] at made; cases made
    | cons argument others =>
      cases others with
      | cons another rest => rw [arguments] at made; cases made
      | nil =>
        simp only [arguments, bind, Except.bind] at made
        split at made
        · rename_i fields declared
          split at made
          · cases made
          · rename_i single
            split at made
            · cases made
            · rename_i bindings collected
              split at made
              · cases made
              · rename_i nullable
                split at made
                · cases made
                · rename_i result shown
                  exact ⟨_, argument, fields, (Except.ok.inj made).symm, arguments,
                    by simpa using single, declared, collected, by simpa using nullable, shown, rfl⟩
        · cases made
  · rintro ⟨⟨name, bindings, result⟩, argument, fields, rfl, makes⟩
    obtain ⟨alone, single, declared, collected, nullable, shown, rfl⟩ := makes
    simp [mutationField, alone, declared, single, collected, nullable, shown, bind, Except.bind]

theorem Makes.writes {source : String} {d : Document} (accepted : read source = .ok d)
    {f : FieldDef} {plan : MutationPlan} {argument : InputDef} {fields : List InputDef}
    (makes : d.Makes f plan argument fields) :
    List.Forall₂ (fun i b => b.field = i.name ∧ d.Writes (fun _ => True) i b.op b.table) fields
      plan.bindings :=
  (mapM_forall₂ makes.bindings).imp fun _ _ bound => (binding_iff accepted).mp bound

theorem mutable_iff {source : String} {d : Document} (accepted : read source = .ok d)
    {root : String} {f : FieldDef} :
    (∃ e, d.mutationField root f = .ok e) ↔ d.Mutable (fun _ => True) f := by
  simp only [mutationField_iff]
  constructor
  · rintro ⟨e, plan, argument, fields, -, makes⟩
    refine ⟨⟨argument, fields, makes.alone, makes.single, makes.declared, fun i inside => ?_⟩,
      makes.nullable, (resultOf_iff accepted).mp ⟨_, makes.result⟩⟩
    obtain ⟨b, bound⟩ := mapM_ok makes.bindings inside
    exact ⟨b.op, b.table, ((binding_iff accepted).mp bound).2⟩
  · rintro ⟨⟨argument, fields, alone, single, declared, each⟩, nullable, result⟩
    obtain ⟨bindings, collected⟩ : ∃ bs, fields.mapM (d.binding argument.type.name) = .ok bs := by
      refine mapM_ok_iff.mpr fun i inside => ?_
      obtain ⟨op, table, writes⟩ := each i inside
      exact ⟨⟨i.name, op, table⟩, (binding_iff accepted).mpr ⟨rfl, writes⟩⟩
    obtain ⟨result, shown⟩ := (resultOf_iff accepted).mpr result
    exact ⟨_, ⟨argument.name, bindings, result⟩, argument, fields, rfl, alone, single, declared,
      collected, nullable, shown, rfl⟩

theorem mutationFields_root (d : Document) :
    d.mutationFields = d.mutationRoot.mapM (d.mutationField (d.mutation.getD "")) := by
  unfold mutationFields mutationRoot
  cases d.mutation <;> rfl

-- The resolver of a mutation field, with one binding for each field of its input, in that order.
def Binds (d : Document) (f : FieldDef) (e : Derived) : Prop :=
  ∃ plan argument fields, d.mutation = some e.1 ∧ e.2 = (f.name, .mutation plan) ∧
    f.arguments = [argument] ∧ plan.argument = argument.name ∧
    d.inputFields? argument.type.name = some fields ∧
    List.Forall₂ (fun i b => b.field = i.name ∧ d.Writes (fun _ => True) i b.op b.table) fields
      plan.bindings

theorem mutationFields_binds {source : String} {d : Document} (accepted : read source = .ok d)
    {derived : List Derived} (made : d.mutationFields = .ok derived) :
    List.Forall₂ d.Binds d.mutationRoot derived := by
  unfold mutationFields at made
  cases named : d.mutation with
  | none =>
    rw [named] at made
    obtain rfl := Except.ok.inj made
    rw [mutationRoot, named]
    exact .nil
  | some root =>
    rw [named] at made
    rw [mutationRoot, named]
    refine (mapM_forall₂ made).imp fun f e one => ?_
    obtain ⟨plan, argument, fields, rfl, makes⟩ := mutationField_iff.mp one
    exact ⟨plan, argument, fields, named, rfl, makes.alone, makes.named, makes.declared,
      makes.writes accepted⟩

theorem mutations_accepted {source : String} {d : Document} (accepted : read source = .ok d) :
    ((∀ f ∈ d.mutationRoot, ∀ i ∈ d.inputsOf f, i.type.single = true) →
      ((∃ derived, d.mutationFields = .ok derived) ↔
        ∀ f ∈ d.mutationRoot, d.Mutable (fun type => type.single = true) f)) ∧
    ((∃ derived, d.mutationFields = .ok derived) ↔
      ∀ f ∈ d.mutationRoot, d.Mutable (fun _ => True) f) ∧
    ∀ derived, d.mutationFields = .ok derived → List.Forall₂ d.Binds d.mutationRoot derived := by
  have any : (∃ derived, d.mutationFields = .ok derived) ↔
      ∀ f ∈ d.mutationRoot, d.Mutable (fun _ => True) f := by
    rw [mutationFields_root, mapM_ok_iff]
    exact forall₂_congr fun f _ => mutable_iff accepted
  refine ⟨fun shallow => any.trans (forall₂_congr fun f member => ?_), any,
    fun derived made => mutationFields_binds accepted made⟩
  exact ⟨fun can => can.mono fun i inside _ => shallow f member i inside,
    fun can => can.mono fun _ _ _ => trivial⟩

end Document

-- Items in a list, and an item alone.
def ledger : String :=
  Overview.ask "type Query" ["book(id: ID): Book"] ++
  Overview.ask "type Book" ["title: String"] ++
  Overview.ask "type Mutation" ["write(input: Write): ID"] ++
  Overview.ask "input Write" ["add: [New] @create(table: \"Book\")",
    "drop: Old @delete(table: \"Book\")"] ++
  Overview.ask "input New" ["id: ID"] ++
  Overview.ask "input Old" ["id: ID", "versionstamp: String"]

theorem ledger_writes : ∃ d, Document.read ledger = .ok d ∧
    (∀ f ∈ d.mutationRoot, ∀ i ∈ d.inputsOf f, i.type.single = true) ∧ d.mutationRoot ≠ [] ∧
    ∀ f ∈ d.mutationRoot, d.Mutable (fun type => type.single = true) f := by
  have shown : ((Document.read ledger).toOption.map fun d =>
      d.mutationRoot.all (fun f => (d.inputsOf f).all fun i => i.type.single) &&
        !d.mutationRoot.isEmpty && d.mutationFields.toOption.isSome) = some true := by
    rw [Document.read_toList]
    simp only [ledger, String.toList_append, Overview.toList_ask]
    decide +kernel
  obtain ⟨d, made, shown⟩ := Option.map_eq_some_iff.mp shown
  simp only [Bool.and_eq_true, List.all_eq_true, Bool.not_eq_true', List.isEmpty_eq_false_iff,
    Option.isSome_iff_exists] at shown
  obtain ⟨⟨shallow, some⟩, derived, derives⟩ := shown
  have read := ok_of_toOption made
  exact ⟨d, read, shallow, some,
    ((Document.mutations_accepted read).1 shallow).mp ⟨derived, ok_of_toOption derives⟩⟩

-- Lists of lists of items are let in, and no request can be right about them: what is inside of the
-- outer list is no object.
def deepLedger : String :=
  Overview.ask "type Query" ["book(id: ID): Book"] ++
  Overview.ask "type Book" ["title: String"] ++
  Overview.ask "type Mutation" ["write(input: Write): ID"] ++
  Overview.ask "input Write" ["drop: [[Old]] @delete(table: \"Book\")"] ++
  Overview.ask "input Old" ["id: ID", "versionstamp: String"]

theorem deepLedger_accepted : ∃ d, Document.read deepLedger = .ok d ∧
    (∃ derived, d.mutationFields = .ok derived) ∧
    ¬ ∀ f ∈ d.mutationRoot, d.Mutable (fun type => type.single = true) f := by
  have shown : ((Document.read deepLedger).toOption.map fun d =>
      d.mutationRoot.any (fun f => (d.inputsOf f).any fun i => !i.type.single) &&
        d.mutationFields.toOption.isSome) = some true := by
    rw [Document.read_toList]
    simp only [deepLedger, String.toList_append, Overview.toList_ask]
    decide +kernel
  obtain ⟨d, made, shown⟩ := Option.map_eq_some_iff.mp shown
  simp only [Bool.and_eq_true, List.any_eq_true, Bool.not_eq_true',
    Option.isSome_iff_exists] at shown
  obtain ⟨⟨f, member, i, inside, deep⟩, derived, derives⟩ := shown
  refine ⟨d, ok_of_toOption made, ⟨derived, ok_of_toOption derives⟩, fun all => ?_⟩
  obtain ⟨argument, fields, alone, _, declared, each⟩ := (all f member).input
  rw [Document.inputsOf, alone, List.flatMap_singleton, declared] at inside
  obtain ⟨_, _, writes⟩ := each i inside
  exact absurd (writes.items.symm.trans deep) (by decide)

end RowGraph
