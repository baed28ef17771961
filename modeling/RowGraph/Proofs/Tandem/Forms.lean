import Mathlib.Data.List.Forall2
import RowGraph.Proofs.Concurrency.Provenance
import RowGraph.Proofs.Mutation.Transaction
import RowGraph.Proofs.Schema.Shape
/-!
Ids in two forms. An integer and its decimal text name the same row, in a request as well as in a
column that refers to rows. Rows that differ only so are alike, and they are shown alike: a column
that is shown as it is stored has one form.
-/

namespace RowGraph

-- One id, as a number or as its text, either way round.
inductive Datum.SameId : Datum → Datum → Prop where
  | same (d : Datum) : SameId d d
  | text (n : Int64) : SameId (.int n) (.string (toString n.toInt))
  | number (n : Int64) : SameId (.string (toString n.toInt)) (.int n)

inductive Value.SameId : Value → Value → Prop where
  | same (v : Value) : SameId v v
  | text (n : Int64) : SameId (.int n) (.string (toString n.toInt))
  | number (n : Int64) : SameId (.string (toString n.toInt)) (.int n)

-- What may be stored in a column of a table. Only where ids of rows are stored are there two forms.
inductive Schema.Stores (s : Schema) (table column : String) : Option Value → Option Value → Prop where
  | same (v : Option Value) : Stores s table column v v
  | one {shape : FieldShape} {target : String} {v v' : Value} :
      FieldMap.get? s.resolvers table column = some (.reference column shape) →
      shape.kind = .reference target → v.SameId v' → Stores s table column (some v) (some v')
  | many {shape : FieldShape} {target : String} {required : Bool} {vs vs' : List Value} :
      FieldMap.get? s.resolvers table column = some (.reference column shape) →
      shape.kind = .referenceList target required → List.Forall₂ Value.SameId vs vs' →
      Stores s table column (some (.array vs)) (some (.array vs'))

def Row.Alike (s : Schema) (table : String) (row row' : Row) : Prop :=
  ∀ column, s.Stores table column (row.column? column) (row'.column? column)

structure Entry.Alike (s : Schema) (table : String) (e e' : Entry) : Prop where
  key : e'.key = e.key
  stamp : e'.stamp = e.stamp
  row : Row.Alike s table e.row e'.row

-- A row that is shown as an object of a type.
inductive Outcome.Like (s : Schema) (type : String) : Outcome → Outcome → Prop where
  | same (o : Outcome) : Like s type o o
  | row {row row' : Row} : Row.Alike s type row row' → Like s type (.row row) (.row row')
  | entry {table : String} {e e' : Entry} : s.document.entryTable? type = some table →
      Entry.Alike s table e e' → Like s type (.row e.wrapped) (.row e'.wrapped)

-- What is handed on for a field of a type.
inductive Outcome.Alike (s : Schema) : TypeExpr → Outcome → Outcome → Prop where
  | same (type : TypeExpr) (o : Outcome) : Alike s type o o
  | one {name : String} {nonNull : Bool} {o o' : Outcome} : Like s name o o' →
      Alike s (.named name nonNull) o o'
  | many {name : String} {required nonNull : Bool} {items items' : List Outcome} :
      List.Forall₂ (Like s name) items items' →
      Alike s (.list (.named name required) nonNull) (.list items) (.list items')

theorem Datum.SameId.names {d d' : Datum} (same : d.SameId d') :
    Resolve.idOfDatum? d' = Resolve.idOfDatum? d := by
  cases same <;> rfl

theorem Datum.SameId.isNull {d d' : Datum} (same : d.SameId d') : d'.isNull = d.isNull := by
  cases same <;> rfl

theorem Value.SameId.isNullish {v v' : Value} (same : v.SameId v') : v'.isNullish = v.isNullish := by
  cases same <;> rfl

-- An argument that is no id has only one form.
theorem Datum.SameId.argumentId {d d' : Datum} (same : d.SameId d') (argument : String) :
    Resolve.argumentId argument d' = Resolve.argumentId argument d := by
  cases same <;> rfl

theorem Value.SameId.referencedId {v v' : Value} (same : v.SameId v') (column : String) :
    Resolve.referencedId column v' = Resolve.referencedId column v := by
  cases same <;> rfl

theorem Value.SameId.present? {v v' : Value} (same : v.SameId v') :
    Option.Rel Value.SameId (Resolve.present? v) (Resolve.present? v') := by
  unfold Resolve.present?
  rw [same.isNullish]
  split
  · exact .none
  · exact .some same

theorem Option.rel_refl {R : α → α → Prop} (refl : ∀ a, R a a) (o : Option α) : Option.Rel R o o := by
  cases o with
  | none => exact .none
  | some a => exact .some (refl a)

section

variable {R : α → β → Prop} {as : List α} {bs : List β}

theorem map_forall₂ {S : γ → δ → Prop} {f : α → γ} {g : β → δ} (each : List.Forall₂ R as bs)
    (same : ∀ a b, R a b → S (f a) (g b)) : List.Forall₂ S (as.map f) (bs.map g) :=
  List.rel_map (fun a b one => same a b one) each

theorem any_forall₂ {p : α → Bool} {p' : β → Bool} (each : List.Forall₂ R as bs)
    (same : ∀ a b, R a b → p' b = p a) : bs.any p' = as.any p := by
  induction each with
  | nil => rfl
  | cons one _ ih => rw [List.any_cons, List.any_cons, same _ _ one, ih]

-- Related elements that are chosen by a condition that is the same for them, and the first of them.
theorem filter_forall₂ {p : α → Bool} {p' : β → Bool} (each : List.Forall₂ R as bs)
    (same : ∀ a b, R a b → p' b = p a) : List.Forall₂ R (as.filter p) (bs.filter p') :=
  List.rel_filter (fun a b one => iff_of_eq (congrArg (· = true) (same a b one).symm)) each

theorem find?_forall₂ {p : α → Bool} {p' : β → Bool} (each : List.Forall₂ R as bs)
    (same : ∀ a b, R a b → p' b = p a) :
    Option.Rel R (as.find? p) (bs.find? p') := by
  induction each with
  | nil => exact .none
  | cons one _ ih =>
    rw [List.find?_cons, List.find?_cons, same _ _ one]
    split
    · exact .some one
    · exact ih

end

theorem Row.Alike.refl (s : Schema) (table : String) (row : Row) : Row.Alike s table row row :=
  fun _ => .same _

theorem Row.Alike.set {s : Schema} {table : String} {row row' : Row} (alike : Row.Alike s table row row')
    (name : String) (v : Value) : Row.Alike s table (row.set name v) (row'.set name v) := by
  intro column
  rw [Row.column?_set, Row.column?_set]
  split
  · exact .same _
  · exact alike column

namespace Entry.Alike

variable {s : Schema} {table : String}

theorem refl (e : Entry) : Entry.Alike s table e e := ⟨rfl, rfl, .refl s table e.row⟩

variable {e e' : Entry} (alike : Entry.Alike s table e e')

include alike

theorem shownRow : Row.Alike s table e.shownRow e'.shownRow := by
  unfold Entry.shownRow
  rw [alike.key]
  exact alike.row.set _ _

-- Around the row of an entry all is equal.
theorem wrapped {column : String} (other : column ≠ valueField) :
    e'.wrapped.column? column = e.wrapped.column? column := by
  simp only [Entry.wrapped_eq, Row.column?_set, if_neg other, alike.key, alike.stamp]

end Entry.Alike

theorem Outcome.Alike.ofLike {s : Schema} {type : TypeExpr} (plain : type.isList = false)
    {o o' : Outcome} (like : Outcome.Like s type.name o o') : Outcome.Alike s type o o' := by
  cases type with
  | named name nonNull => exact .one like
  | list item nonNull => cases plain

-- Entries of a table are shown as objects of a type.
def Schema.ShowsRows (s : Schema) (type table : String) (entry : Bool) : Prop :=
  if entry then s.document.entryTable? type = some table else type = table

theorem Schema.ShowsRows.like {s : Schema} {type table : String} {entry : Bool}
    (shows : s.ShowsRows type table entry) {e e' : Entry} (alike : Entry.Alike s table e e') :
    Outcome.Like s type (e.outcome entry) (e'.outcome entry) := by
  cases entry with
  | true => exact .entry shows alike
  | false =>
    obtain rfl : type = table := shows
    exact .row alike.shownRow

namespace FieldShape

variable {s : Schema} {type : TypeExpr} {shape : FieldShape} {table : String}

-- What rows a type shows, by the shape that it has.
theorem classify_shows (classified : classify s.document.lookup type = .ok shape)
    (rows : shape.table? = some table) : s.ShowsRows type.name table shape.entry := by
  induction type generalizing shape with
  | named name nonNull =>
    unfold classify ofName at classified
    split at classified
    · obtain rfl := Except.ok.inj classified
      obtain rfl := Option.some.inj rows
      exact rfl
    · split at classified
      · rename_i wrapped
        obtain rfl := Except.ok.inj classified
        obtain rfl := Option.some.inj rows
        exact wrapped
      · cases classified
    · obtain rfl := Except.ok.inj classified
      cases rows
    all_goals cases classified
  | list item nonNull ih =>
    obtain ⟨inner, inside, listed⟩ := Document.bind_ok classified
    unfold listOf at listed
    split at listed
    · obtain rfl := Except.ok.inj listed
      cases rows
    · rename_i table' kind
      obtain rfl := Except.ok.inj listed
      have same : inner.table? = some table := by
        rw [table?, kind]
        exact rows
      have shows : s.ShowsRows item.name table inner.entry := ih inside same
      exact shows
    · cases listed

theorem alike_one (classified : classify s.document.lookup type = .ok shape)
    (kind : shape.kind = .reference table) {o o' : Outcome} (like : Outcome.Like s type.name o o') :
    Outcome.Alike s type o o' := by
  rw [classify_reference classified kind]
  exact .one like

theorem alike_many {required : Bool} (classified : classify s.document.lookup type = .ok shape)
    (kind : shape.kind = .referenceList table required) {items items' : List Outcome}
    (like : List.Forall₂ (Outcome.Like s type.name) items items') :
    Outcome.Alike s type (.list items) (.list items') := by
  rw [classify_references classified kind]
  exact .many like

end FieldShape

end RowGraph
