import RowGraph.Proofs.Schema.Derived
/-!
What the shape of a field says of its declared type.
-/

namespace RowGraph

namespace FieldShape

theorem ofName_ok {lookup : TypeLookup} {name : String} {nonNull : Bool} {shape : FieldShape}
    (classified : ofName lookup name nonNull = .ok shape) :
    shape.nonNull = nonNull ∧ ∀ table required, shape.kind ≠ .referenceList table required := by
  unfold ofName at classified
  split at classified
  · obtain rfl := Except.ok.inj classified
    simp
  · split at classified
    · obtain rfl := Except.ok.inj classified
      simp
    · cases classified
  · obtain rfl := Except.ok.inj classified
    simp
  all_goals cases classified

theorem listOf_ok {item shape : FieldShape} {nonNull : Bool}
    (accepted : listOf item nonNull = .ok shape) :
    shape.nonNull = nonNull ∧
      ∀ table required, shape.kind = .referenceList table required → item.nonNull = required := by
  unfold listOf at accepted
  split at accepted
  · obtain rfl := Except.ok.inj accepted
    simp
  · obtain rfl := Except.ok.inj accepted
    simp
  · cases accepted

theorem classify_nonNull {lookup : TypeLookup} {type : TypeExpr} {shape : FieldShape}
    (classified : classify lookup type = .ok shape) : shape.nonNull = type.nonNull := by
  cases type with
  | named name nonNull => exact (ofName_ok classified).1
  | list item nonNull =>
    obtain ⟨inner, _, accepted⟩ := Document.bind_ok classified
    exact (listOf_ok accepted).1

-- A list of references is declared as a list, and its elements may be null just as they are
-- declared.
theorem classify_list {lookup : TypeLookup} {type : TypeExpr} {shape : FieldShape}
    {table : String} {required : Bool} (classified : classify lookup type = .ok shape)
    (kind : shape.kind = .referenceList table required) :
    ∃ item nonNull, type = .list item nonNull ∧ item.nonNull = required := by
  cases type with
  | named name nonNull => exact absurd kind ((ofName_ok classified).2 table required)
  | list item nonNull =>
    obtain ⟨inner, classified, accepted⟩ := Document.bind_ok classified
    refine ⟨item, nonNull, rfl, ?_⟩
    rw [← classify_nonNull classified]
    exact (listOf_ok accepted).2 table required kind

-- References to an entry type have the shape of an entry of its table.
theorem classify_entry {lookup : TypeLookup} {type : TypeExpr} {shape : FieldShape} {table : String}
    (classified : classify lookup type = .ok shape) (kind : lookup.kindOf type.name = some .entry)
    (wraps : lookup.entryTable type.name = some table) :
    shape.table? = some table ∧ shape.entry = true := by
  induction type generalizing shape with
  | named name nonNull =>
    rw [classify, ofName] at classified
    change lookup.kindOf name = some .entry at kind
    change lookup.entryTable name = some table at wraps
    simp only [kind, wraps] at classified
    obtain rfl := Except.ok.inj classified
    exact ⟨rfl, rfl⟩
  | list item nonNull ih =>
    obtain ⟨inner, classified, accepted⟩ := Document.bind_ok classified
    obtain ⟨named, entry⟩ := ih classified kind wraps
    unfold listOf at accepted
    unfold table? at named
    split at accepted
    · rename_i scalar
      rw [scalar] at named
      cases named
    · rename_i reference
      obtain rfl := Except.ok.inj accepted
      rw [reference] at named
      exact ⟨named, entry⟩
    · cases accepted

-- A single reference is declared by a name alone.
theorem classify_reference {lookup : TypeLookup} {type : TypeExpr} {shape : FieldShape}
    {table : String} (classified : classify lookup type = .ok shape)
    (kind : shape.kind = .reference table) : type = .named type.name type.nonNull := by
  cases type with
  | named name nonNull => rfl
  | list item nonNull =>
    obtain ⟨inner, _, accepted⟩ := Document.bind_ok classified
    unfold listOf at accepted
    split at accepted
    · obtain rfl := Except.ok.inj accepted
      cases kind
    · obtain rfl := Except.ok.inj accepted
      cases kind
    · cases accepted

-- A list of references is declared by one list around a name.
theorem classify_references {lookup : TypeLookup} {type : TypeExpr} {shape : FieldShape}
    {table : String} {required : Bool} (classified : classify lookup type = .ok shape)
    (kind : shape.kind = .referenceList table required) :
    type = .list (.named type.name required) type.nonNull := by
  cases type with
  | named name nonNull => exact absurd kind ((ofName_ok classified).2 table required)
  | list item nonNull =>
    obtain ⟨inner, classified, accepted⟩ := Document.bind_ok classified
    have same := (listOf_ok accepted).2 table required kind
    rw [classify_nonNull classified] at same
    unfold listOf at accepted
    split at accepted
    · obtain rfl := Except.ok.inj accepted
      cases kind
    · rename_i single
      have named := classify_reference classified single
      rw [same] at named
      exact congrArg (TypeExpr.list · nonNull) named
    · cases accepted

-- What shows rows is of a table type, or of an entry type and shows them as entries.
theorem classify_rows {lookup : TypeLookup} {type : TypeExpr} {shape : FieldShape}
    (classified : classify lookup type = .ok shape) (rows : shape.kind ≠ .scalar) :
    lookup.kindOf type.name = some .table ∧ shape.entry = false ∨
      lookup.kindOf type.name = some .entry ∧ shape.entry = true := by
  induction type generalizing shape with
  | named name nonNull =>
    unfold classify ofName at classified
    change lookup.kindOf name = some .table ∧ _ ∨ lookup.kindOf name = some .entry ∧ _
    split at classified
    · rename_i table
      obtain rfl := Except.ok.inj classified
      exact .inl ⟨table, rfl⟩
    · rename_i entry
      split at classified
      · obtain rfl := Except.ok.inj classified
        exact .inr ⟨entry, rfl⟩
      · cases classified
    · obtain rfl := Except.ok.inj classified
      exact absurd rfl rows
    all_goals cases classified
  | list item nonNull ih =>
    obtain ⟨inner, single, accepted⟩ := Document.bind_ok classified
    unfold listOf at accepted
    split at accepted
    · obtain rfl := Except.ok.inj accepted
      exact absurd rfl rows
    · rename_i reference
      obtain rfl := Except.ok.inj accepted
      have inside := ih single (by rw [reference]; exact fun scalar => nomatch scalar)
      exact inside
    · cases accepted

-- What shows leaf values is of a leaf type, however many lists there are around it.
theorem classify_leaf {lookup : TypeLookup} {type : TypeExpr} {shape : FieldShape}
    (classified : classify lookup type = .ok shape) (scalar : shape.kind = .scalar) :
    lookup.kindOf type.name = some .leaf := by
  induction type generalizing shape with
  | named name nonNull =>
    unfold classify ofName at classified
    change lookup.kindOf name = some .leaf
    split at classified
    · obtain rfl := Except.ok.inj classified
      cases scalar
    · split at classified
      · obtain rfl := Except.ok.inj classified
        cases scalar
      · cases classified
    · rename_i leaf
      exact leaf
    all_goals cases classified
  | list item nonNull ih =>
    obtain ⟨inner, single, accepted⟩ := Document.bind_ok classified
    unfold listOf at accepted
    split at accepted
    · rename_i leaf
      exact ih single leaf
    · obtain rfl := Except.ok.inj accepted
      cases scalar
    · cases accepted

-- What has a shape can be shown, by the name at the bottom of its type.
theorem classify_kindOf {lookup : TypeLookup} {type : TypeExpr} {shape : FieldShape}
    (classified : classify lookup type = .ok shape) :
    ∃ kind, lookup.kindOf type.name = some kind ∧ kind ≠ .input ∧ kind ≠ .abstract := by
  induction type generalizing shape with
  | named name nonNull =>
    unfold classify ofName at classified
    change ∃ kind, lookup.kindOf name = some kind ∧ _
    split at classified
    · rename_i kind
      exact ⟨_, kind, by simp⟩
    · rename_i kind
      exact ⟨_, kind, by simp⟩
    · rename_i kind
      exact ⟨_, kind, by simp⟩
    all_goals cases classified
  | list item nonNull ih =>
    obtain ⟨inner, classified, _⟩ := Document.bind_ok classified
    exact ih classified

end FieldShape

end RowGraph
