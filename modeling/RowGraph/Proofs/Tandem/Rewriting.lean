import RowGraph.Language.Literal
import RowGraph.Proofs.Schema.Kinds
import RowGraph.Proofs.Tandem.Alongside
import RowGraph.Proofs.Tandem.Inputs
import RowGraph.Validation.InputValue
/-!
Values in which ids have other forms, in a request. A form says where in a value the ids of rows
stand. Main statements: a literal and its rewriting denote a value and its rewriting, and an input type
takes either of them or neither, for the same reason.
-/

namespace RowGraph

-- Where ids stand: nowhere, right here, in a list, or in an object, also in each of several.
inductive Form where
  | plain
  | id
  | list (item : Form)
  | object (member : String → Form)
  | objects (member : String → Form)

namespace Form

def item : Form → Form
  | .list f => f
  | .objects member => .object member
  | _ => .plain

def member : Form → String → Form
  | .object member => member
  | .objects member => member
  | _ => fun _ => .plain

end Form

mutual

inductive Datum.Rewritten : Form → Datum → Datum → Prop where
  | same {f : Form} (d : Datum) : Rewritten f d d
  | id {d d' : Datum} : d.SameId d' → Rewritten .id d d'
  | list {f : Form} {ds ds' : List Datum} : Datum.AllRewritten f.item ds ds' →
      Rewritten f (.list ds) (.list ds')
  | object {f : Form} {ms ms' : List (String × Datum)} : Datum.MembersRewritten f.member ms ms' →
      Rewritten f (.object ms) (.object ms')

inductive Datum.AllRewritten : Form → List Datum → List Datum → Prop where
  | nil {f : Form} : AllRewritten f [] []
  | cons {f : Form} {d d' : Datum} {ds ds' : List Datum} : Datum.Rewritten f d d' →
      AllRewritten f ds ds' → AllRewritten f (d :: ds) (d' :: ds')

inductive Datum.MembersRewritten : (String → Form) → List (String × Datum) → List (String × Datum) →
    Prop where
  | nil {f : String → Form} : MembersRewritten f [] []
  | cons {f : String → Form} {name : String} {d d' : Datum} {ms ms' : List (String × Datum)} :
      Datum.Rewritten (f name) d d' → MembersRewritten f ms ms' →
      MembersRewritten f ((name, d) :: ms) ((name, d') :: ms')

end

-- The forms are those of the variables. A variable stands where ids stand as its value has them, or
-- where its value has one form only.
mutual

inductive Literal.Rewritten (forms : String → Form) : Form → Literal → Literal → Prop where
  | var {f : Form} (name : String) : forms name = f ∨ forms name = .plain →
      Rewritten forms f (.var name) (.var name)
  | null {f : Form} : Rewritten forms f .null .null
  | bool {f : Form} (b : Bool) : Rewritten forms f (.bool b) (.bool b)
  | number {f : Form} (n : Number) : Rewritten forms f (.number n) (.number n)
  | string {f : Form} (s : String) : Rewritten forms f (.string s) (.string s)
  | enum {f : Form} (name : String) : Rewritten forms f (.enum name) (.enum name)
  | toText (n : Int64) :
      Rewritten forms .id (.number (.int n)) (.string (toString n.toInt))
  | toNumber (n : Int64) :
      Rewritten forms .id (.string (toString n.toInt)) (.number (.int n))
  | list {f : Form} {items items' : List Literal} : Literal.AllRewritten forms f.item items items' →
      Rewritten forms f (.list items) (.list items')
  | object {f : Form} {members members' : List (String × Literal)} :
      Literal.MembersRewritten forms f.member members members' →
      Rewritten forms f (.object members) (.object members')

inductive Literal.AllRewritten (forms : String → Form) : Form → List Literal → List Literal → Prop where
  | nil {f : Form} : AllRewritten forms f [] []
  | cons {f : Form} {l l' : Literal} {rest rest' : List Literal} : Literal.Rewritten forms f l l' →
      AllRewritten forms f rest rest' → AllRewritten forms f (l :: rest) (l' :: rest')

inductive Literal.MembersRewritten (forms : String → Form) :
    (String → Form) → List (String × Literal) → List (String × Literal) → Prop where
  | nil {f : String → Form} : MembersRewritten forms f [] []
  | cons {f : String → Form} {name : String} {l l' : Literal} {rest rest' : List (String × Literal)} :
      Literal.Rewritten forms (f name) l l' → MembersRewritten forms f rest rest' →
      MembersRewritten forms f ((name, l) :: rest) ((name, l') :: rest')

end

namespace Datum

mutual

-- A value without ids has one form.
theorem Rewritten.plain : ∀ {d d' : Datum}, Datum.Rewritten .plain d d' → d' = d
  | _, _, .same _ => rfl
  | _, _, .list items => congrArg Datum.list (AllRewritten.plain items)
  | _, _, .object members => congrArg Datum.object (MembersRewritten.plain members)

theorem AllRewritten.plain : ∀ {ds ds' : List Datum}, Datum.AllRewritten .plain ds ds' → ds' = ds
  | _, _, .nil => rfl
  | _, _, .cons first rest => by rw [Rewritten.plain first, AllRewritten.plain rest]

theorem MembersRewritten.plain : ∀ {ms ms' : List (String × Datum)},
    Datum.MembersRewritten (fun _ => .plain) ms ms' → ms' = ms
  | _, _, .nil => rfl
  | _, _, .cons first rest => by rw [Rewritten.plain first, MembersRewritten.plain rest]

end

theorem AllRewritten.forall₂ {f : Form} {ds ds' : List Datum} (all : Datum.AllRewritten f ds ds') :
    List.Forall₂ (Datum.Rewritten f) ds ds' := by
  induction ds generalizing ds' with
  | nil => cases all; exact .nil
  | cons d rest ih => cases all with | cons first more => exact .cons first (ih more)

theorem MembersRewritten.alike {f : String → Form} {ms ms' : List (String × Datum)}
    (all : Datum.MembersRewritten f ms ms') :
    Members.Alike (fun name => Datum.Rewritten (f name)) ms ms' := by
  induction ms generalizing ms' with
  | nil => cases all; exact .nil
  | cons m rest ih => cases all with | cons first more => exact .cons ⟨rfl, first⟩ (ih more)

end Datum

namespace Literal

variable {ε : Type} {E : ε → ε → Prop} {forms : String → Form} {lookup lookup' : String → Except ε Datum}

mutual

theorem Rewritten.eval (values : ∀ name, Agree E (Datum.Rewritten (forms name)) (lookup name) (lookup' name)) :
    ∀ {f : Form} {l l' : Literal}, Literal.Rewritten forms f l l' →
    Agree E (Datum.Rewritten f) (l.eval lookup) (l'.eval lookup')
  | _, _, _, .var name known => by
    unfold Literal.eval
    rcases known with rfl | plain
    · exact values name
    · have value := values name
      rw [plain] at value
      refine value.imp fun d d' same => ?_
      rw [same.plain]
      exact .same d
  | _, _, _, .null => .ok (.same _)
  | _, _, _, .bool _ => .ok (.same _)
  | _, _, _, .number _ => .ok (.same _)
  | _, _, _, .string _ => .ok (.same _)
  | _, _, _, .enum _ => .ok (.same _)
  | _, _, _, .toText n => .ok (.id (.text n))
  | _, _, _, .toNumber n => .ok (.id (.number n))
  | _, _, _, .list items => by
    unfold Literal.eval
    exact (AllRewritten.eval values items).map fun _ _ => .list
  | _, _, _, .object members => by
    unfold Literal.eval
    exact (MembersRewritten.eval values members).map fun _ _ => .object

theorem AllRewritten.eval (values : ∀ name, Agree E (Datum.Rewritten (forms name)) (lookup name) (lookup' name)) :
    ∀ {f : Form} {ls ls' : List Literal}, Literal.AllRewritten forms f ls ls' →
    Agree E (Datum.AllRewritten f) (evalItems lookup ls) (evalItems lookup' ls')
  | _, _, _, .nil => by
    unfold evalItems
    exact .ok .nil
  | _, _, _, .cons first rest => by
    unfold evalItems
    refine (Rewritten.eval values first).bind fun d d' one => ?_
    exact (AllRewritten.eval values rest).bind fun ds ds' more => .ok (.cons one more)

theorem MembersRewritten.eval (values : ∀ name, Agree E (Datum.Rewritten (forms name)) (lookup name) (lookup' name)) :
    ∀ {f : String → Form} {ms ms' : List (String × Literal)}, Literal.MembersRewritten forms f ms ms' →
    Agree E (Datum.MembersRewritten f) (evalMembers lookup ms) (evalMembers lookup' ms')
  | _, _, _, .nil => by
    unfold evalMembers
    exact .ok .nil
  | _, _, _, .cons first rest => by
    unfold evalMembers
    refine (Rewritten.eval values first).bind fun d d' one => ?_
    exact (MembersRewritten.eval values rest).bind fun ds ds' more => .ok (.cons one more)

end

mutual

-- No variable comes or goes.
theorem Rewritten.vars : ∀ {f : Form} {l l' : Literal}, Literal.Rewritten forms f l l' → l'.vars = l.vars
  | _, _, _, .var _ _ => rfl
  | _, _, _, .null => rfl
  | _, _, _, .bool _ => rfl
  | _, _, _, .number _ => rfl
  | _, _, _, .string _ => rfl
  | _, _, _, .enum _ => rfl
  | _, _, _, .toText _ => rfl
  | _, _, _, .toNumber _ => rfl
  | _, _, _, .list items => by
    unfold Literal.vars
    exact AllRewritten.vars items
  | _, _, _, .object members => by
    unfold Literal.vars
    exact MembersRewritten.vars members

theorem AllRewritten.vars : ∀ {f : Form} {ls ls' : List Literal}, Literal.AllRewritten forms f ls ls' →
    varsItems ls' = varsItems ls
  | _, _, _, .nil => rfl
  | _, _, _, .cons first rest => by
    unfold varsItems
    rw [Rewritten.vars first, AllRewritten.vars rest]

theorem MembersRewritten.vars : ∀ {f : String → Form} {ms ms' : List (String × Literal)},
    Literal.MembersRewritten forms f ms ms' → varsMembers ms' = varsMembers ms
  | _, _, _, .nil => rfl
  | _, _, _, .cons first rest => by
    unfold varsMembers
    rw [Rewritten.vars first, MembersRewritten.vars rest]

end

end Literal

-- A form is that of values of an input type: wherever an id may stand, the type asks for an id.
def Form.Fits (c : Catalog) : Form → TypeExpr → Prop
  | .plain, _ => True
  | .id, type => type.name = "ID"
  | .list f, type => ∀ item nonNull, type = .list item nonNull → f.Fits c item
  | .object member, type => ∀ fields name d, c.inputFields type.name = some fields →
      fields.find? (fun f => f.name = name) = some d → (member name).Fits c d.type
  | .objects member, type => ∀ fields name d, c.inputFields type.name = some fields →
      fields.find? (fun f => f.name = name) = some d → (member name).Fits c d.type

namespace Form

variable {c : Catalog}

theorem Fits.item {f : Form} {item : TypeExpr} {nonNull : Bool} (fits : f.Fits c (.list item nonNull)) :
    f.item.Fits c item := by
  cases f with
  | list f => exact fits item nonNull rfl
  | objects member => exact fits
  | _ => trivial

theorem Fits.member {f : Form} {type : TypeExpr} {fields : List InputDef} {name : String} {d : InputDef}
    (fits : f.Fits c type) (inputs : c.inputFields type.name = some fields)
    (found : fields.find? (fun f => f.name = name) = some d) : (f.member name).Fits c d.type := by
  cases f with
  | object member => exact fits fields name d inputs found
  | objects member => exact fits fields name d inputs found
  | _ => trivial

end Form

namespace Catalog

-- A scalar takes all lists and objects or none of them.
theorem leafReason_list (c : Catalog) (type path : String) (ds ds' : List Datum) :
    c.leafReason type path (.list ds') = c.leafReason type path (.list ds) := by
  have same : scalarTakes type (.list ds') = scalarTakes type (.list ds) := by
    unfold scalarTakes
    split <;> simp_all
  unfold leafReason
  rw [same]

theorem leafReason_object (c : Catalog) (type path : String) (ms ms' : List (String × Datum)) :
    c.leafReason type path (.object ms') = c.leafReason type path (.object ms) := by
  have same : scalarTakes type (.object ms') = scalarTakes type (.object ms) := by
    unfold scalarTakes
    split <;> simp_all
  unfold leafReason
  rw [same]

end Catalog

namespace Schema.Grounded

variable {s : Schema}

-- Where an id is expected, numbers and texts are fine.
theorem inputReason_sameId (grounded : s.Grounded) {type : TypeExpr} (ids : type.name = "ID")
    (path : String) {d d' : Datum} (same : d.SameId d') :
    s.catalog.inputReason type path d' = s.catalog.inputReason type path d := by
  have builtin : builtinScalars.contains "ID" = true := by decide
  obtain ⟨t, found, scalar⟩ := grounded.type?_builtin builtin
  have number (n : Int64) : s.catalog.inputReason type path (.int n) = none := by
    unfold Datum.int Catalog.inputReason Catalog.leafReason
    simp only [ids, found, scalar]
    rfl
  have text (text : String) : s.catalog.inputReason type path (.string text) = none := by
    unfold Catalog.inputReason Catalog.leafReason
    simp only [ids, found, scalar]
    rfl
  cases same with
  | same => rfl
  | text n => rw [number, text]
  | number n => rw [number, text]

mutual

theorem rewritten_reason (grounded : s.Grounded) : ∀ {f : Form} {d d' : Datum},
    Datum.Rewritten f d d' → ∀ (type : TypeExpr) (path : String), f.Fits s.catalog type →
    s.catalog.inputReason type path d' = s.catalog.inputReason type path d
  | _, _, _, .same _, _, _, _ => rfl
  | _, _, _, .id same, _, path, fits => grounded.inputReason_sameId fits path same
  | _, _, _, .list items, .named name _, path, _ => by
    unfold Catalog.inputReason
    exact s.catalog.leafReason_list name path _ _
  | _, _, _, .list items, .list item _, path, fits => by
    unfold Catalog.inputReason
    exact grounded.allRewritten_reason items item path 0 fits.item
  | _, _, _, .object members, type, path, fits => by
    unfold Catalog.inputReason
    cases inputs : s.catalog.inputFields type.name with
    | none => exact s.catalog.leafReason_object type.name path _ _
    | some fields =>
      exact congrArg (Catalog.objectReason _ path fields) (grounded.membersRewritten_verdicts members fields path
        fun name d found => fits.member inputs found)

theorem allRewritten_reason (grounded : s.Grounded) : ∀ {f : Form} {ds ds' : List Datum},
    Datum.AllRewritten f ds ds' → ∀ (item : TypeExpr) (path : String) (index : Nat),
    f.Fits s.catalog item →
    s.catalog.itemsReason item path index ds' = s.catalog.itemsReason item path index ds
  | _, _, _, .nil, _, _, _, _ => rfl
  | _, _, _, .cons first rest, item, path, index, fits => by
    unfold Catalog.itemsReason
    rw [grounded.rewritten_reason first item _ fits, grounded.allRewritten_reason rest item path _ fits]

theorem membersRewritten_verdicts (grounded : s.Grounded) : ∀ {f : String → Form}
    {ms ms' : List (String × Datum)}, Datum.MembersRewritten f ms ms' →
    ∀ (fields : List InputDef) (path : String), (∀ name d,
      fields.find? (fun f => f.name = name) = some d → (f name).Fits s.catalog d.type) →
    s.catalog.memberVerdicts fields path ms' = s.catalog.memberVerdicts fields path ms
  | _, _, _, .nil, _, _, _ => rfl
  | _, _, _, @Datum.MembersRewritten.cons _ name _ _ _ _ first rest, fields, path, fits => by
    unfold Catalog.memberVerdicts
    rw [grounded.membersRewritten_verdicts rest fields path fits]
    cases found : fields.find? (fun f => f.name = name) with
    | none => rfl
    | some d =>
      dsimp only
      rw [grounded.rewritten_reason first d.type _ (fits name d found)]

end

end Schema.Grounded

namespace Form

-- The items of a mutation, or one of them.
def ofItems : Form := .objects fun column => if column = idColumn then .id else .plain

end Form

-- Where a resolver looks up rows by the ids in its arguments.
inductive Resolver.Reads : Resolver → String → Form → Prop where
  | id {argument table : String} {shape : FieldShape} : shape.kind = .reference table →
      Reads (.root argument shape) argument .id
  | ids {argument table : String} {shape : FieldShape} {required : Bool} :
      shape.kind = .referenceList table required → Reads (.root argument shape) argument (.list .id)
  | input {plan : MutationPlan} {bound : String → Form} :
      (∀ name, bound name = .plain ∨ (∃ b ∈ plan.bindings, b.field = name) ∧ bound name = .ofItems) →
      Reads (.mutation plan) plan.argument (.object bound)

namespace Datum

theorem Rewritten.sameId {d d' : Datum} (rewritten : Datum.Rewritten .id d d') : d.SameId d' := by
  cases rewritten with
  | same => exact .same _
  | id same => exact same
  | list items => exact items.plain ▸ .same _
  | object members => exact members.plain ▸ .same _

theorem Rewritten.items {d d' : Datum} (rewritten : Datum.Rewritten .ofItems d d') :
    Commit.ItemsAlike d d' := by
  have item {ms ms' : List (String × Datum)}
      (members : Datum.MembersRewritten Form.ofItems.member ms ms') :
      Commit.ItemAlike (.object ms) (.object ms') := by
    refine .item (members.alike.imp ?_)
    rintro ⟨name, d⟩ ⟨name', d'⟩ ⟨rfl, member⟩
    refine ⟨rfl, ?_⟩
    by_cases column : name' = idColumn
    · rw [column]
      rw [column] at member
      exact .inr ⟨rfl, member.sameId⟩
    · have plain : Form.ofItems.member name' = .plain := if_neg column
      dsimp only at member
      rw [plain] at member
      exact .inl member.plain
  cases rewritten with
  | same => exact .one (.same _)
  | object members => exact .one (item members)
  | list items =>
    refine .many (items.forall₂.imp fun d d' one => ?_)
    cases one with
    | same => exact .same _
    | list items => exact items.plain ▸ .same _
    | object members => exact item members

end Datum

theorem Resolver.Reads.varies {r : Resolver} {name : String} {f : Form} (reads : r.Reads name f)
    {d d' : Datum} (rewritten : Datum.Rewritten f d d') : Resolver.Varies (some r) name d d' := by
  cases reads with
  | id kind => exact .inr ⟨_, rfl, .id kind rewritten.sameId⟩
  | ids kind =>
    cases rewritten with
    | same => exact .inl rfl
    | list items => exact .inr ⟨_, rfl, .ids kind (items.forall₂.imp fun _ _ one => one.sameId)⟩
    | object members => exact .inl (members.plain ▸ rfl)
  | input bound =>
    cases rewritten with
    | same => exact .inl rfl
    | list items => exact .inl (items.plain ▸ rfl)
    | object members =>
      refine .inr ⟨_, rfl, .input (Commit.operation_alike (members.alike.imp ?_))⟩
      rintro ⟨name, d⟩ ⟨name', d'⟩ ⟨rfl, member⟩
      refine ⟨rfl, ?_⟩
      dsimp only [Form.member] at member
      rcases bound name' with plain | ⟨known, items⟩
      · rw [plain] at member
        exact .inl member.plain
      · rw [items] at member
        exact .inr ⟨known, member.items⟩

end RowGraph
