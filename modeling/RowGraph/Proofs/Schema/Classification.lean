import RowGraph.Proofs.Schema.Shape
/-!
Which type expressions have a shape, and which one. The name at the bottom is either a leaf, below
any number of lists, or leads to the rows of a table, below one list at most. Main statement: no
other expression has a shape, and the flags of the shape are those of the outermost list or name and
of its item.
-/

namespace RowGraph

-- How many lists there are around the name.
def TypeExpr.depth : TypeExpr → Nat
  | .named _ _ => 0
  | .list item _ => item.depth + 1

namespace TypeLookup

-- The rows that a name stands for: those of the table of that name, or of the wrapped one.
def Leads (lookup : TypeLookup) (name table : String) : Prop :=
  lookup.kindOf name = some .table ∧ table = name ∨
    lookup.kindOf name = some .entry ∧ lookup.entryTable name = some table

variable {lookup : TypeLookup} {name table table' : String}

theorem Leads.unique (leads : lookup.Leads name table) (leads' : lookup.Leads name table') :
    table = table' := by
  rcases leads with ⟨kind, rfl⟩ | ⟨kind, wraps⟩ <;>
    rcases leads' with ⟨kind', rfl⟩ | ⟨kind', wraps'⟩
  · rfl
  · exact nomatch Option.some.inj (kind.symm.trans kind')
  · exact nomatch Option.some.inj (kind.symm.trans kind')
  · exact Option.some.inj (wraps.symm.trans wraps')

theorem Leads.not_leaf (leads : lookup.Leads name table) : lookup.kindOf name ≠ some .leaf := by
  rcases leads with ⟨kind, _⟩ | ⟨kind, _⟩ <;> simp [kind]

end TypeLookup

namespace FieldShape

-- The shapes that type expressions are declared to have.
inductive Declared (lookup : TypeLookup) : TypeExpr → FieldShape → Prop where
  | leaf (type : TypeExpr) : lookup.kindOf type.name = some .leaf →
      Declared lookup type ⟨.scalar, type.nonNull, false⟩
  | single {name table : String} (nonNull : Bool) : lookup.Leads name table →
      Declared lookup (.named name nonNull)
        ⟨.reference table, nonNull, lookup.kindOf name = some .entry⟩
  | several {name table : String} {required nonNull : Bool} : lookup.Leads name table →
      Declared lookup (.list (.named name required) nonNull)
        ⟨.referenceList table required, nonNull, lookup.kindOf name = some .entry⟩

variable {lookup : TypeLookup}

theorem ofName_iff {name : String} {nonNull : Bool} {shape : FieldShape} :
    ofName lookup name nonNull = .ok shape ↔ Declared lookup (.named name nonNull) shape := by
  constructor
  · intro accepted
    unfold ofName at accepted
    split at accepted
    · rename_i kind
      obtain rfl := Except.ok.inj accepted
      simpa [kind] using Declared.single nonNull (.inl ⟨kind, rfl⟩)
    · rename_i kind
      split at accepted
      · rename_i table wraps
        obtain rfl := Except.ok.inj accepted
        simpa [kind] using Declared.single nonNull (.inr ⟨kind, wraps⟩)
      · cases accepted
    · rename_i kind
      obtain rfl := Except.ok.inj accepted
      exact .leaf (.named name nonNull) kind
    all_goals cases accepted
  · intro declared
    cases declared with
    | leaf _ kind =>
      change lookup.kindOf name = some .leaf at kind
      simp [ofName, kind, TypeExpr.nonNull]
    | single _ leads =>
      rcases leads with ⟨kind, rfl⟩ | ⟨kind, wraps⟩
      · simp [ofName, kind]
      · simp [ofName, kind, wraps]

-- One more list around an item: leaves stay leaves, and a single reference becomes several.
theorem listOf_iff {item : TypeExpr} {nonNull : Bool} {shape : FieldShape} :
    (∃ inner, Declared lookup item inner ∧ listOf inner nonNull = .ok shape) ↔
      Declared lookup (.list item nonNull) shape := by
  constructor
  · rintro ⟨inner, declared, accepted⟩
    cases declared with
    | leaf _ kind =>
      obtain rfl := Except.ok.inj accepted
      exact .leaf (.list item nonNull) kind
    | single _ leads =>
      obtain rfl := Except.ok.inj accepted
      exact .several leads
    | several => cases accepted
  · intro declared
    cases declared with
    | leaf _ kind => exact ⟨_, .leaf item kind, rfl⟩
    | several leads => exact ⟨_, .single _ leads, rfl⟩

theorem classify_iff {type : TypeExpr} {shape : FieldShape} :
    classify lookup type = .ok shape ↔ Declared lookup type shape := by
  induction type generalizing shape with
  | named name nonNull => exact ofName_iff
  | list item nonNull ih =>
    rw [← listOf_iff]
    constructor
    · intro accepted
      obtain ⟨inner, classified, accepted⟩ := Document.bind_ok accepted
      exact ⟨inner, ih.mp classified, accepted⟩
    · rintro ⟨inner, declared, accepted⟩
      rw [classify, ih.mpr declared]
      exact accepted

-- Expressions that have a shape at all.
theorem classify_total {type : TypeExpr} :
    (∃ shape, classify lookup type = .ok shape) ↔ lookup.kindOf type.name = some .leaf ∨
      (∃ table, lookup.Leads type.name table) ∧ type.depth ≤ 1 := by
  simp only [classify_iff]
  constructor
  · rintro ⟨shape, declared⟩
    cases declared with
    | leaf _ kind => exact .inl kind
    | single _ leads => exact .inr ⟨⟨_, leads⟩, Nat.zero_le 1⟩
    | several leads => exact .inr ⟨⟨_, leads⟩, Nat.le_refl 1⟩
  · rintro (kind | ⟨⟨table, leads⟩, shallow⟩)
    · exact ⟨_, .leaf _ kind⟩
    · match type, leads, shallow with
      | .named name nonNull, leads, _ => exact ⟨_, .single _ leads⟩
      | .list (.named name required) nonNull, leads, _ => exact ⟨_, .several leads⟩
      | .list (.list item _) _, _, deep => simp [TypeExpr.depth] at deep

theorem Declared.flags {type : TypeExpr} {shape : FieldShape}
    (declared : Declared lookup type shape) : shape.nonNull = type.nonNull ∧
      (shape.entry = true ↔ lookup.kindOf type.name = some .entry) := by
  cases declared with
  | leaf _ kind => simp [kind]
  | single | several => simp [TypeExpr.nonNull, TypeExpr.name]

-- A leaf has its shape by its name and its outermost flag.
theorem Declared.of_leaf {type : TypeExpr} {shape : FieldShape}
    (declared : Declared lookup type shape) (kind : lookup.kindOf type.name = some .leaf) : shape = ⟨.scalar, type.nonNull, false⟩ := by
  cases declared with
  | leaf => rfl
  | single _ leads => exact absurd kind leads.not_leaf
  | several leads => exact absurd kind leads.not_leaf

theorem Declared.of_rows {type : TypeExpr} {shape : FieldShape} {table : String}
    (declared : Declared lookup type shape) (leads : lookup.Leads type.name table) :
    (type.depth = 0 → shape.kind = .reference table) ∧
      ∀ item nonNull, type = .list item nonNull →
        shape.kind = .referenceList table item.nonNull := by
  cases declared with
  | leaf _ kind => exact absurd kind leads.not_leaf
  | single _ leads' =>
    obtain rfl := leads.unique leads'
    exact ⟨fun _ => rfl, fun _ _ list => nomatch list⟩
  | several leads' =>
    obtain rfl := leads.unique leads'
    refine ⟨fun deep => absurd deep (Nat.succ_ne_zero 0), ?_⟩
    rintro _ _ ⟨⟩
    rfl

theorem shapes_exact (lookup : TypeLookup) (type : TypeExpr) :
    ((∃ shape, classify lookup type = .ok shape) ↔ lookup.kindOf type.name = some .leaf ∨
      (∃ table, lookup.Leads type.name table) ∧ type.depth ≤ 1) ∧
    ∀ shape, classify lookup type = .ok shape →
      shape.nonNull = type.nonNull ∧
      (shape.entry = true ↔ lookup.kindOf type.name = some .entry) ∧
      (lookup.kindOf type.name = some .leaf → shape.kind = .scalar ∧
        ∀ other : TypeExpr, other.name = type.name → other.nonNull = type.nonNull →
          classify lookup other = .ok shape) ∧
      ∀ table, lookup.Leads type.name table →
        (type.depth = 0 → shape.kind = .reference table) ∧
        ∀ item nonNull, type = .list item nonNull →
          shape.kind = .referenceList table item.nonNull := by
  refine ⟨classify_total, fun shape classified => ?_⟩
  have declared := classify_iff.mp classified
  refine ⟨declared.flags.1, declared.flags.2, fun kind => ?_, fun table => declared.of_rows⟩
  obtain rfl := declared.of_leaf kind
  refine ⟨rfl, fun other named outermost => classify_iff.mpr ?_⟩
  rw [← outermost]
  exact .leaf other (named ▸ kind)

-- Inside the second list of leaves no flag counts.
example : classify ⟨fun _ => some .leaf, fun _ => none⟩
    (.list (.list (.named "Int" true) true) false) = .ok ⟨.scalar, false, false⟩ := rfl

end FieldShape

end RowGraph
