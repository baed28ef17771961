import RowGraph.Proofs.Tandem.Matching
/-!
A single value in the place of a list. A bound field of an input is given a list of items, or one item
without brackets. Main statements: a mutation collects the same operation from either, and a literal
denotes a value with the brackets where it has them, and without where it has none.
-/

namespace RowGraph

-- In the place of a list such a value is the list of itself.
def Datum.isSingle : Datum → Bool
  | .null => false
  | .list _ => false
  | _ => true

-- One value, in brackets on one side.
inductive Datum.Boxed : Datum → Datum → Prop where
  | box {d : Datum} : d.isSingle = true → Boxed d (.list [d])
  | unbox {d : Datum} : d.isSingle = true → Boxed (.list [d]) d

-- What stands at a place of a request: the items of a bound field, an input that has such fields, or
-- anything else. All fields of the input of a mutation are bound.
inductive Slot where
  | plain
  | items
  | input

inductive Datum.Recast : Slot → Datum → Datum → Prop where
  | same {slot : Slot} (d : Datum) : Recast slot d d
  | items {d d' : Datum} : d.Boxed d' → Recast .items d d'
  | input {ms ms' : List (String × Datum)} : Members.Alike (fun _ d d' => d' = d ∨ d.Boxed d') ms ms' →
      Recast .input (.object ms) (.object ms')

theorem Datum.Recast.plain {d d' : Datum} (recast : Datum.Recast .plain d d') : d' = d := by
  cases recast
  rfl

namespace Commit

section

variable {input input' : List (String × Datum)}
  (alike : Members.Alike (fun _ d d' => d' = d ∨ d.Boxed d') input input')

include alike

-- A single value is looked at as the list of itself.
theorem itemsOf_recast (b : Binding) : itemsOf input' b = itemsOf input b := by
  unfold itemsOf
  have found := alike.get? b.field
  generalize Members.get? b.field input = d at found ⊢
  generalize Members.get? b.field input' = d' at found ⊢
  cases found with
  | none => rfl
  | some same =>
    rcases same with rfl | boxed
    · rfl
    · cases boxed with
      | box single =>
        rename_i d
        cases d with
        | null | list => cases single
        | _ => rfl
      | unbox single =>
        rename_i d
        cases d with
        | null | list => cases single
        | _ => rfl

theorem operation_recast (plan : MutationPlan) : operation plan input' = operation plan input := by
  unfold operation items
  simp only [itemsOf_recast alike]

end

end Commit

-- The arguments of a mutation field with items in brackets or without.
def MutationPlan.Recasts (plan : MutationPlan) (name : String) (d d' : Datum) : Prop :=
  d' = d ∨ name = plan.argument ∧ Datum.Recast .input d d'

-- A hook that sees no brackets.
def Hook.Blind (plan : MutationPlan) (h : Hook) : Prop :=
  ∀ as as' : Arguments, Members.Alike plan.Recasts as as' → h.refusal? as' = h.refusal? as

-- What an argument of a field is, by the type of the object as far as this is known.
inductive Schema.Expects (s : Schema) (on : Option TypeDef) (field argument : String) : Slot → Prop where
  | plain : Expects s on field argument .plain
  | input {t : TypeDef} {plan : MutationPlan} : on = some t → s.enters t field = false →
      FieldMap.get? s.resolvers t.name field = some (.mutation plan) → plan.argument = argument →
      (∀ h ∈ (FieldMap.get? s.hooks t.name field).getD [], h.Blind plan) →
      Expects s on field argument .input

def Schema.Recasts (s : Schema) (on : Option TypeDef) (field argument : String) (d d' : Datum) : Prop :=
  ∃ slot, s.Expects on field argument slot ∧ Datum.Recast slot d d'

theorem MutationPlan.Recasts.varies {plan : MutationPlan} {name : String} {d d' : Datum}
    (recasts : plan.Recasts name d d') : Resolver.Varies (some (.mutation plan)) name d d' := by
  rcases recasts with rfl | ⟨rfl, recast⟩
  · exact .inl rfl
  · cases recast with
    | same => exact .inl rfl
    | input alike => exact .inr ⟨_, rfl, .input (Commit.operation_recast alike plan)⟩

-- A field takes its arguments with items in brackets or without.
theorem Schema.admits_recasts (s : Schema) (on : Option TypeDef) (field : String) :
    s.Admits on field (s.Recasts on field) := by
  refine ⟨fun _ d => ⟨.plain, .plain, .same d⟩, ?_⟩
  by_cases expects : ∃ argument, s.Expects on field argument .input
  · obtain ⟨argument, expects⟩ := expects
    cases expects with
    | @input t plan there own resolves _ blind =>
      have recasts : ∀ name d d', s.Recasts on field name d d' → plan.Recasts name d d' := by
        rintro name d d' ⟨slot, place, recast⟩
        cases place with
        | plain => exact .inl recast.plain
        | @input t' plan' there' _ resolves' named' _ =>
          obtain rfl := Option.some.inj (there.symm.trans there')
          obtain rfl := Resolver.mutation.inj (Option.some.inj (resolves.symm.trans resolves'))
          exact .inr ⟨named'.symm, recast⟩
      refine .inr ⟨t, there, own, ⟨_, resolves, fun name d d' one => (recasts name d d' one).varies⟩, ?_⟩
      exact fun h member as as' alike => blind h member as as' <| alike.imp fun m m' same =>
        ⟨same.1, recasts _ _ _ same.2⟩
  · refine .inl ?_
    rintro name d d' ⟨slot, place, recast⟩
    cases place with
    | plain => exact recast.plain
    | input there own resolves named blind =>
      exact absurd ⟨name, .input there own resolves named blind⟩ expects

namespace Literal

-- Each variable has a slot that says what it stands for; some stand for a single value.
section

variable (slots : String → Slot) (single : String → Prop)

def Plain (l : Literal) : Prop := ∀ name ∈ l.vars, slots name = .plain

def Single : Literal → Prop
  | .var name => single name
  | .null => False
  | .list _ => False
  | _ => True

-- What a bound field is given.
inductive ItemsRecast : Literal → Literal → Prop where
  | kept {l : Literal} : l.Plain slots → ItemsRecast l l
  | var {name : String} : slots name = .items → ItemsRecast (.var name) (.var name)
  | box {l : Literal} : l.Plain slots → l.Single single → ItemsRecast l (.list [l])
  | unbox {l : Literal} : l.Plain slots → l.Single single → ItemsRecast (.list [l]) l

inductive Recast : Slot → Literal → Literal → Prop where
  | kept {slot : Slot} {l : Literal} : l.Plain slots → Recast slot l l
  | var {slot : Slot} {name : String} : slots name = slot → Recast slot (.var name) (.var name)
  | input {ms ms' : List (String × Literal)} : Members.Alike (fun _ => ItemsRecast slots single) ms ms' →
      Recast .input (.object ms) (.object ms')

end

variable {ε ε' : Type} {E : ε → ε' → Prop} {lookup : String → Except ε Datum}
  {lookup' : String → Except ε' Datum}

mutual

-- Only the variables of a literal are looked up.
theorem eval_agree : ∀ {l : Literal}, (∀ name ∈ l.vars, Agree E Eq (lookup name) (lookup' name)) →
    Agree E Eq (l.eval lookup) (l.eval lookup')
  | .var name, values => values name List.mem_cons_self
  | .null, _ => .ok rfl
  | .bool _, _ => .ok rfl
  | .number _, _ => .ok rfl
  | .string _, _ => .ok rfl
  | .enum _, _ => .ok rfl
  | .list _, values => by
    unfold eval
    exact (evalItems_agree values).map fun _ _ => congrArg Datum.list
  | .object _, values => by
    unfold eval
    exact (evalMembers_agree values).map fun _ _ => congrArg Datum.object

theorem evalItems_agree : ∀ {ls : List Literal},
    (∀ name ∈ varsItems ls, Agree E Eq (lookup name) (lookup' name)) →
    Agree E Eq (evalItems lookup ls) (evalItems lookup' ls)
  | [], _ => .ok rfl
  | l :: rest, values => by
    unfold evalItems
    refine (eval_agree fun name member => values name (List.mem_append_left _ member)).bind ?_
    rintro d _ rfl
    refine (evalItems_agree fun name member => values name (List.mem_append_right _ member)).bind ?_
    rintro ds _ rfl
    exact .ok rfl

theorem evalMembers_agree : ∀ {ms : List (String × Literal)},
    (∀ name ∈ varsMembers ms, Agree E Eq (lookup name) (lookup' name)) →
    Agree E Eq (evalMembers lookup ms) (evalMembers lookup' ms)
  | [], _ => .ok rfl
  | (name, l) :: rest, values => by
    unfold evalMembers
    refine (eval_agree fun name member => values name (List.mem_append_left _ member)).bind ?_
    rintro d _ rfl
    refine (evalMembers_agree fun name member => values name (List.mem_append_right _ member)).bind ?_
    rintro ds _ rfl
    exact .ok rfl

end

variable {slots : String → Slot} {single : String → Prop}
  (values : ∀ name, Agree E (Datum.Recast (slots name)) (lookup name) (lookup' name))

include values

theorem Plain.eval {l : Literal} (plain : l.Plain slots) :
    Agree E Eq (l.eval lookup) (l.eval lookup') := by
  refine eval_agree fun name member => ?_
  have value := values name
  rw [plain name member] at value
  exact value.imp fun _ _ recast => recast.plain.symm

omit values in
theorem Single.eval (singles : ∀ name d, single name → lookup name = .ok d → d.isSingle = true)
    {l : Literal} (one : l.Single single) {d : Datum} (value : l.eval lookup = .ok d) :
    d.isSingle = true := by
  cases l with
  | var name => exact singles name d one value
  | null => cases one
  | list items => cases one
  | object members =>
    unfold Literal.eval at value
    generalize evalMembers lookup members = ds at value
    cases ds with
    | error e => cases value
    | ok ds =>
      obtain rfl := Except.ok.inj value
      rfl
  | _ =>
    obtain rfl := Except.ok.inj value
    rfl

omit values in
theorem eval_list_singleton (l : Literal) :
    (Literal.list [l]).eval lookup = (l.eval lookup).map fun d => .list [d] := by
  rw [Literal.eval, evalItems, evalItems]
  cases l.eval lookup <;> rfl

section

variable (singles : ∀ name d, single name → lookup name = .ok d → d.isSingle = true)

include singles

theorem Single.agree {l : Literal} (plain : l.Plain slots) (one : l.Single single) :
    Agree E (fun d d' => d = d' ∧ d.isSingle = true) (l.eval lookup) (l.eval lookup') :=
  (plain.eval values).known fun _ found => one.eval singles found

theorem ItemsRecast.eval {l l' : Literal} (recast : ItemsRecast slots single l l') :
    Agree E (fun d d' => d' = d ∨ d.Boxed d') (l.eval lookup) (l'.eval lookup') := by
  cases recast with
  | kept plain => exact (plain.eval values).imp fun _ _ same => .inl same.symm
  | @var name items =>
    have value := values name
    rw [items] at value
    refine value.imp fun d d' recast => ?_
    cases recast with
    | same => exact .inl rfl
    | items boxed => exact .inr boxed
  | box plain one =>
    rw [eval_list_singleton]
    refine (one.agree values singles plain).mapRight ?_
    rintro d _ ⟨rfl, single⟩
    exact .inr (.box single)
  | unbox plain one =>
    rw [eval_list_singleton]
    refine (one.agree values singles plain).mapLeft ?_
    rintro d _ ⟨rfl, single⟩
    exact .inr (.unbox single)

theorem Recast.eval {slot : Slot} {l l' : Literal} (recast : Recast slots single slot l l') :
    Agree E (Datum.Recast slot) (l.eval lookup) (l'.eval lookup') := by
  cases recast with
  | kept plain => exact (plain.eval values).imp fun d _ same => same ▸ .same d
  | @var _ name known => exact known ▸ values name
  | input alike =>
    unfold Literal.eval
    refine Agree.map (V := Members.Alike fun _ d d' => d' = d ∨ d.Boxed d') ?_ fun _ _ => .input
    induction alike with
    | nil => exact .ok .nil
    | @cons m m' rest rest' same _ ih =>
      obtain ⟨name, l⟩ := m
      obtain ⟨name', l'⟩ := m'
      obtain ⟨rfl, same⟩ := same
      unfold evalMembers
      refine (same.eval values singles).bind fun d d' one => ih.bind fun ds ds' more => ?_
      exact .ok (.cons ⟨rfl, one⟩ more)

end

end Literal

end RowGraph
