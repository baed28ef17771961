import RowGraph.Proofs.Tandem.Forms
/-!
Where a request says which rows it means: in the argument of a root field, alone or in a list, and in
the ids of the items of a mutation. Main statement: items with the same ids in other forms are
collected into the same operation.
-/

namespace RowGraph

-- Members of the same names, with values that may differ as it is allowed for their names.
def Members.Alike (R : String → α → α → Prop) : List (String × α) → List (String × α) → Prop :=
  List.Forall₂ fun m m' => m'.1 = m.1 ∧ R m.1 m.2 m'.2

theorem Members.Alike.get? {R : String → α → α → Prop} {members members' : List (String × α)}
    (alike : Members.Alike R members members') (name : String) :
    Option.Rel (R name) (Members.get? name members) (Members.get? name members') := by
  induction alike with
  | nil => exact .none
  | @cons m m' rest rest' same _ ih =>
    rw [Members.get?_cons, Members.get?_cons, same.1]
    split
    · rename_i named
      exact .some (named ▸ same.2)
    · exact ih

theorem Members.Alike.refl {R : String → α → α → Prop} (refl : ∀ name a, R name a a)
    (members : List (String × α)) : Members.Alike R members members :=
  List.forall₂_same.mpr fun m _ => ⟨rfl, refl m.1 m.2⟩

theorem Members.Alike.eq {R : String → α → α → Prop} (equal : ∀ name a a', R name a a' → a' = a)
    {members members' : List (String × α)} (alike : Members.Alike R members members') :
    members' = members := by
  induction alike with
  | nil => rfl
  | cons same _ ih => rw [ih, Prod.ext same.1 (equal _ _ _ same.2)]

namespace Commit

-- Only the id of an item has two forms.
def MemberAlike (name : String) (d d' : Datum) : Prop :=
  d' = d ∨ name = idColumn ∧ d.SameId d'

inductive ItemAlike : Datum → Datum → Prop where
  | same (d : Datum) : ItemAlike d d
  | item {members members' : Item} : Members.Alike MemberAlike members members' →
      ItemAlike (.object members) (.object members')

-- What a bound field of an input may be given.
inductive ItemsAlike : Datum → Datum → Prop where
  | one {d d' : Datum} : ItemAlike d d' → ItemsAlike d d'
  | many {ds ds' : List Datum} : List.Forall₂ ItemAlike ds ds' → ItemsAlike (.list ds) (.list ds')

def InputAlike (plan : MutationPlan) (name : String) (d d' : Datum) : Prop :=
  d' = d ∨ (∃ b ∈ plan.bindings, b.field = name) ∧ ItemsAlike d d'

section

variable {item item' : Item} (alike : Members.Alike MemberAlike item item')

include alike

theorem itemId_alike (b : Binding) : itemId b item' = itemId b item := by
  unfold itemId
  have found := alike.get? idColumn
  generalize Members.get? idColumn item = d at found ⊢
  generalize Members.get? idColumn item' = d' at found ⊢
  cases found with
  | none => rfl
  | some same =>
    rcases same with rfl | ⟨_, same⟩
    · rfl
    · simp only [Option.bind_some, same.names]

theorem itemStamp_alike (b : Binding) : itemStamp b item' = itemStamp b item := by
  have same : Members.get? stampField item' = Members.get? stampField item := by
    have found := alike.get? stampField
    generalize Members.get? stampField item = d at found ⊢
    generalize Members.get? stampField item' = d' at found ⊢
    cases found with
    | none => rfl
    | some same =>
      rcases same with rfl | ⟨named, _⟩
      · rfl
      · exact absurd named (by decide)
  unfold itemStamp
  rw [same]

-- The id is no column of the row.
theorem itemRow_alike : itemRow item' = itemRow item := by
  have same : item'.filter (fun m => m.1 ≠ idColumn && m.1 ≠ stampField) =
      item.filter fun m => m.1 ≠ idColumn && m.1 ≠ stampField := by
    induction alike with
    | nil => rfl
    | @cons m m' rest rest' same _ ih =>
      obtain ⟨name, d⟩ := m
      obtain ⟨name', d'⟩ := m'
      obtain ⟨rfl, same⟩ := same
      simp only [List.filter_cons]
      split
      · rename_i column
        rcases same with rfl | ⟨rfl, _⟩
        · rw [ih]
        · simp at column
      · exact ih
  unfold itemRow
  rw [same]

end

theorem ItemAlike.addItem {d d' : Datum} (alike : ItemAlike d d') (b : Binding) (op : Operation) :
    addItem b op d' = addItem b op d := by
  cases alike with
  | same => rfl
  | item members =>
    unfold Commit.addItem
    simp only [Datum.asObject?, bind, Except.bind, itemId_alike members, itemStamp_alike members,
      itemRow_alike members]

theorem itemsOf_alike {input input' : List (String × Datum)} {plan : MutationPlan}
    (alike : Members.Alike (InputAlike plan) input input') (b : Binding) :
    List.Forall₂ ItemAlike (itemsOf input b) (itemsOf input' b) := by
  have refl (ds : List Datum) : List.Forall₂ ItemAlike ds ds :=
    List.forall₂_same.mpr fun d _ => .same d
  unfold itemsOf
  have found := alike.get? b.field
  generalize Members.get? b.field input = d at found ⊢
  generalize Members.get? b.field input' = d' at found ⊢
  cases found with
  | none => exact .nil
  | some same =>
    rcases same with rfl | ⟨_, items⟩
    · exact refl _
    · cases items with
      | many each => exact each
      | one one =>
        cases one with
        | same => exact refl _
        | item members => exact .cons (.item members) .nil

theorem addItems_alike {listed listed' : List (Binding × Datum)}
    (alike : List.Forall₂ (fun i i' => i'.1 = i.1 ∧ ItemAlike i.2 i'.2) listed listed')
    (op : Operation) : addItems op listed' = addItems op listed := by
  induction alike generalizing op with
  | nil => rfl
  | @cons i i' rest rest' same _ ih =>
    obtain ⟨b, d⟩ := i
    obtain ⟨b', d'⟩ := i'
    obtain ⟨rfl, same⟩ := same
    unfold addItems
    rw [same.addItem]
    exact congrArg _ (funext ih)

theorem operation_alike {plan : MutationPlan} {input input' : List (String × Datum)}
    (alike : Members.Alike (InputAlike plan) input input') :
    operation plan input' = operation plan input := by
  unfold operation
  refine addItems_alike ?_ {}
  unfold items
  induction plan.bindings with
  | nil => exact .nil
  | cons b rest ih =>
    rw [List.flatMap_cons, List.flatMap_cons]
    refine List.rel_append ?_ ih
    rw [List.forall₂_map_left_iff, List.forall₂_map_right_iff]
    exact (itemsOf_alike alike b).imp fun _ _ item => ⟨rfl, item⟩

end Commit

-- What a resolver may be given for an argument instead.
inductive Resolver.Receives : Resolver → String → Datum → Datum → Prop where
  | id {argument table : String} {shape : FieldShape} {d d' : Datum} :
      shape.kind = .reference table → d.SameId d' → Receives (.root argument shape) argument d d'
  | ids {argument table : String} {shape : FieldShape} {required : Bool} {ds ds' : List Datum} :
      shape.kind = .referenceList table required → List.Forall₂ Datum.SameId ds ds' →
      Receives (.root argument shape) argument (.list ds) (.list ds')
  | input {plan : MutationPlan} {input input' : List (String × Datum)} :
      Commit.operation plan input' = Commit.operation plan input →
      Receives (.mutation plan) plan.argument (.object input) (.object input')

-- The value of an argument of a field. Without a resolver it has one form.
def Resolver.Varies (r : Option Resolver) (name : String) (d d' : Datum) : Prop :=
  d' = d ∨ ∃ resolver, r = some resolver ∧ resolver.Receives name d d'

theorem Resolver.Varies.isNull {r : Option Resolver} {name : String} {d d' : Datum}
    (varies : Resolver.Varies r name d d') : d'.isNull = d.isNull := by
  obtain rfl | ⟨_, _, takes⟩ := varies
  · rfl
  · cases takes with
    | id _ same => exact same.isNull
    | ids => rfl
    | input => rfl

abbrev Arguments.Alike (r : Option Resolver) : Arguments → Arguments → Prop :=
  Members.Alike (Resolver.Varies r)

theorem Arguments.Alike.refl (r : Option Resolver) (as : Arguments) : Arguments.Alike r as as :=
  Members.Alike.refl (fun _ _ => .inl rfl) as

end RowGraph
