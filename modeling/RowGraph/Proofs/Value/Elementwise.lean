import RowGraph.Proofs.Validation.Reports
import RowGraph.Proofs.Value.Reordered
/-!
Values in values. Stored values, GraphQL values and JSON values hold lists of their own kind and
lists of such values by name, so that what is said about one depth can be said about all; and
conversions go through lists item by item and through objects member by member, under the names that
are there. Main statements: what holds of a value as soon as it holds of the values in it holds of
every value, and what a conversion makes of a list or an object is put together from what it makes
of the values there.
-/

namespace RowGraph

-- Values of a kind with the values that each of them holds.
class Nested (α : Type) [SizeOf α] where
  inner : α → List α
  smaller : ∀ {u v : α}, u ∈ inner v → sizeOf u < sizeOf v

namespace Nested

variable {α : Type} [SizeOf α] [Nested α]

theorem induct {P : α → Prop} (step : ∀ v, (∀ u ∈ inner v, P u) → P v) (v : α) : P v :=
  step v fun u _ => induct step u
termination_by sizeOf v
decreasing_by exact smaller ‹_›

-- A value is a part of itself, and what is a part of a value in it is one too.
inductive PartOf : α → α → Prop where
  | whole (v : α) : PartOf v v
  | inside {u v w : α} : w ∈ inner v → PartOf u w → PartOf u v

theorem part_iff {u v : α} : PartOf u v ↔ u = v ∨ ∃ w ∈ inner v, PartOf u w := by
  constructor
  · rintro (_ | ⟨member, part⟩)
    · exact .inl rfl
    · exact .inr ⟨_, member, part⟩
  · rintro (rfl | ⟨w, member, part⟩)
    · exact .whole u
    · exact .inside member part

theorem part_shallow {v : α} (shallow : ∀ w ∈ inner v, inner w = []) {u : α} :
    PartOf u v ↔ u = v ∨ u ∈ inner v := by
  rw [part_iff]
  refine or_congr_right ⟨fun ⟨w, member, part⟩ => ?_, fun member => ⟨u, member, .whole u⟩⟩
  rcases part_iff.mp part with rfl | ⟨_, inside, _⟩
  · exact member
  · rw [shallow w member] at inside
    cases inside

-- What turns the values in a value turns its parts.
theorem PartOf.of_map {β : Type} [SizeOf β] [Nested β] {f : α → β}
    (turned : ∀ a, inner (f a) = (inner a).map f) {a : α} {b : β} (part : PartOf b (f a)) :
    ∃ a', PartOf a' a ∧ b = f a' := by
  generalize made : f a = whole at part
  induction part generalizing a with
  | whole => exact ⟨a, .whole a, made.symm⟩
  | inside member _ ih =>
    rw [← made, turned] at member
    obtain ⟨c, held, same⟩ := List.mem_map.mp member
    obtain ⟨a', part, same⟩ := ih same
    exact ⟨a', .inside held part, same⟩

end Nested

theorem sizeOf_named {α : Type} [SizeOf α] {members : List (String × α)} {a : α}
    (member : a ∈ members.map Prod.snd) : sizeOf a < sizeOf members := by
  obtain ⟨⟨name, a'⟩, inside, same⟩ := List.mem_map.mp member
  obtain rfl : a' = a := same
  have listed := List.sizeOf_lt_of_mem inside
  simp only [Prod.mk.sizeOf_spec] at listed
  omega

def Value.inner : Value → List Value
  | .array items => items
  | .object columns => columns.map Prod.snd
  | _ => []

def Datum.inner : Datum → List Datum
  | .list items => items
  | .object members => members.map Prod.snd
  | _ => []

def Json.inner : Json → List Json
  | .array items => items
  | .object members => members.map Prod.snd
  | _ => []

instance : Nested Value where
  inner := Value.inner
  smaller {u v} member := by
    cases v with
    | array items =>
      have listed : sizeOf u < sizeOf items := List.sizeOf_lt_of_mem member
      exact Nat.lt_trans listed (by simp)
    | object columns => exact Nat.lt_trans (sizeOf_named member) (by simp)
    | _ => cases member

instance : Nested Datum where
  inner := Datum.inner
  smaller {u v} member := by
    cases v with
    | list items =>
      have listed : sizeOf u < sizeOf items := List.sizeOf_lt_of_mem member
      exact Nat.lt_trans listed (by simp)
    | object members => exact Nat.lt_trans (sizeOf_named member) (by simp)
    | _ => cases member

instance : Nested Json where
  inner := Json.inner
  smaller {u v} member := by
    cases v with
    | array items =>
      have listed : sizeOf u < sizeOf items := List.sizeOf_lt_of_mem member
      exact Nat.lt_trans listed (by simp)
    | object members => exact Nat.lt_trans (sizeOf_named member) (by simp)
    | _ => cases member

open Nested

-- Members under the same names.
def Members.mapValues (f : α → β) (members : List (String × α)) : List (String × β) :=
  members.map fun m => (m.1, f m.2)

namespace Members

variable {α β γ : Type}

theorem names_mapValues (f : α → β) (members : List (String × α)) :
    (mapValues f members).map Prod.fst = members.map Prod.fst := by
  rw [mapValues, List.map_map]
  rfl

theorem mapValues_mapValues (f : α → β) (g : β → γ) (members : List (String × α)) :
    mapValues g (mapValues f members) = mapValues (fun a => g (f a)) members := by
  rw [mapValues, mapValues, List.map_map]
  rfl

theorem values_mapValues (f : α → β) (members : List (String × α)) :
    (mapValues f members).map Prod.snd = (members.map Prod.snd).map f := by
  rw [mapValues, List.map_map, List.map_map]
  rfl

theorem mapValues_congr {f g : α → β} {members : List (String × α)}
    (same : ∀ a ∈ members.map Prod.snd, f a = g a) : mapValues f members = mapValues g members :=
  List.map_congr_left fun m member => by rw [same m.2 (List.mem_map_of_mem member)]

theorem mapValues_id (members : List (String × α)) : mapValues (fun a => a) members = members :=
  List.map_id' members

theorem sorted_mapValues {f : α → β} {members : List (String × α)} (sorted : Assoc.Sorted members) :
    Assoc.Sorted (mapValues f members) := List.pairwise_map.mpr sorted

end Members

theorem Row.ofColumns_sorted {columns : List (String × Value)} (sorted : Assoc.Sorted columns) :
    ofColumns columns = columns := Assoc.ofList_sorted sorted

theorem eq_map_of_cons {α β : Type} {f : α → β} {g : List α → List β} (nil : g [] = [])
    (cons : ∀ a as, g (a :: as) = f a :: g as) (as : List α) : g as = as.map f := by
  induction as with
  | nil => exact nil
  | cons a as ih => rw [cons, ih, List.map_cons]

theorem eq_mapM_of_cons {α β ε : Type} (f : α → Except ε β) (g : List α → Except ε (List β))
    (nil : g [] = .ok [])
    (cons : ∀ a as, g (a :: as) = f a >>= fun b => g as >>= fun bs => .ok (b :: bs))
    (as : List α) : g as = as.mapM f := by
  induction as with
  | nil => exact nil
  | cons a as ih =>
    rw [cons, ih, List.mapM_cons]
    rfl

-- Where everything an element leads to leads on to the image of the element, lists do as well.
theorem forall₂_map {α β γ : Type} {R : α → β → Prop} {S : β → γ → Prop} {f : α → γ} {as : List α}
    {bs : List β} (each : List.Forall₂ R as bs) (step : ∀ a ∈ as, ∀ b, R a b → S b (f a)) :
    List.Forall₂ S bs (as.map f) := by
  induction each with
  | nil => exact .nil
  | cons related _ ih =>
    obtain ⟨first, later⟩ := List.forall_mem_cons.mp step
    exact .cons (first _ related) (ih later)

theorem eq_map_of_forall₂ {α β : Type} {R : α → β → Prop} {f : α → β} {as : List α} {bs : List β}
    (each : List.Forall₂ R as bs) (step : ∀ a ∈ as, ∀ b, R a b → b = f a) : bs = as.map f := by
  simpa only [List.forall₂_eq_eq_eq] using forall₂_map each step

-- Steps that can be gone on from each element can be gone on from the whole list.
theorem forall₂_choose {α β γ : Type} {R : α → β → Prop} {S : β → γ → Prop} {T : α → γ → Prop}
    {as : List α} {bs : List β} (each : List.Forall₂ R as bs)
    (step : ∀ a ∈ as, ∀ b, R a b → ∃ c, S b c ∧ T a c) :
    ∃ cs, List.Forall₂ S bs cs ∧ List.Forall₂ T as cs := by
  induction each with
  | nil => exact ⟨[], .nil, .nil⟩
  | cons related _ ih =>
    obtain ⟨first, later⟩ := List.forall_mem_cons.mp step
    obtain ⟨c, onwards, across⟩ := first _ related
    obtain ⟨cs, onwards', across'⟩ := ih later
    exact ⟨c :: cs, .cons onwards onwards', .cons across across'⟩

theorem map_ok_iff {α β ε : Type} {x : Except ε α} {f : α → β} {b : β} :
    x.map f = .ok b ↔ ∃ a, x = .ok a ∧ b = f a := by
  cases x <;> simp [Except.map, eq_comm]

theorem map_error_iff {α β ε : Type} {x : Except ε α} {f : α → β} {e : ε} :
    x.map f = .error e ↔ x = .error e := by
  cases x <;> simp [Except.map]

-- A list is converted item by item: it fails with one of its items, or comes out item by item.
theorem mapM_iff {α β ε : Type} {f : α → Except ε β} {as : List α} {bs : List β} :
    as.mapM f = .ok bs ↔ List.Forall₂ (fun a b => f a = .ok b) as bs := by
  refine ⟨Document.mapM_forall₂, fun each => ?_⟩
  induction each with
  | nil => rfl
  | cons first _ ih =>
    rw [List.mapM_cons, first, ih]
    rfl

def Members.converted {α β ε : Type} (f : α → Except ε β) (m : String × α) :
    Except ε (String × β) := (f m.2).map fun b => (m.1, b)

theorem Members.converted_ok {α β ε : Type} {f : α → Except ε β} {m : String × α} {n : String × β} :
    converted f m = .ok n ↔ m.1 = n.1 ∧ f m.2 = .ok n.2 := by
  unfold converted
  constructor
  · intro made
    cases found : f m.2 with
    | error e =>
      rw [found] at made
      cases made
    | ok b =>
      rw [found] at made
      obtain rfl := Except.ok.inj made
      exact ⟨rfl, rfl⟩
  · rintro ⟨name, made⟩
    rw [made, name]
    rfl

theorem Members.converted_error {α β ε : Type} {f : α → Except ε β} {m : String × α} {e : ε} :
    converted f m = .error e ↔ f m.2 = .error e := by
  rw [converted, map_error_iff]

namespace Value

theorem toJsonItems_eq (items : List Value) : toJsonItems items = items.map toJson :=
  eq_map_of_cons rfl (fun _ _ => rfl) items

theorem toJsonColumns_eq (columns : List (String × Value)) :
    toJsonColumns columns = Members.mapValues toJson columns :=
  eq_map_of_cons rfl (fun _ _ => rfl) columns

theorem ofJsonItems_eq (items : List Json) : ofJsonItems items = items.map ofJson :=
  eq_map_of_cons rfl (fun _ _ => rfl) items

theorem ofJsonMembers_eq (members : List (String × Json)) :
    ofJsonMembers members = Members.mapValues ofJson members :=
  eq_map_of_cons rfl (fun _ _ => rfl) members

theorem toDatumItems_eq (items : List Value) : toDatumItems items = items.mapM toDatum :=
  eq_mapM_of_cons toDatum toDatumItems rfl (fun _ _ => rfl) items

theorem toDatumColumns_eq (columns : List (String × Value)) :
    toDatumColumns columns = columns.mapM (Members.converted toDatum) := by
  refine eq_mapM_of_cons (Members.converted toDatum) toDatumColumns rfl (fun c rest => ?_) columns
  rw [toDatumColumns, Members.converted]
  cases toDatum c.2 <;> rfl

theorem ofDatumItems_eq (items : List Datum) : ofDatumItems items = items.mapM ofDatum :=
  eq_mapM_of_cons ofDatum ofDatumItems rfl (fun _ _ => rfl) items

theorem ofDatumMembers_eq (members : List (String × Datum)) :
    ofDatumMembers members = members.mapM (Members.converted ofDatum) := by
  refine eq_mapM_of_cons (Members.converted ofDatum) ofDatumMembers rfl (fun c rest => ?_) members
  rw [ofDatumMembers, Members.converted]
  cases ofDatum c.2 <;> rfl

theorem toDatum_array {items : List Value} {d : Datum} : toDatum (.array items) = .ok d ↔
    ∃ ds, List.Forall₂ (fun v d => toDatum v = .ok d) items ds ∧ d = .list ds := by
  rw [toDatum, toDatumItems_eq, map_ok_iff]
  simp only [mapM_iff]

theorem toDatum_object {columns : List (String × Value)} {d : Datum} :
    toDatum (.object columns) = .ok d ↔ ∃ members,
      List.Forall₂ (fun c m => c.1 = m.1 ∧ toDatum c.2 = .ok m.2) columns members ∧
        d = .object members := by
  rw [toDatum, toDatumColumns_eq, map_ok_iff]
  simp only [mapM_iff, Members.converted_ok]

theorem ofDatum_list {items : List Datum} {v : Value} : ofDatum (.list items) = .ok v ↔
    ∃ vs, List.Forall₂ (fun d v => ofDatum d = .ok v) items vs ∧ v = .array vs := by
  rw [ofDatum, ofDatumItems_eq, map_ok_iff]
  simp only [mapM_iff]

theorem ofDatum_object {members : List (String × Datum)} {v : Value} :
    ofDatum (.object members) = .ok v ↔ ∃ columns,
      List.Forall₂ (fun m c => m.1 = c.1 ∧ ofDatum m.2 = .ok c.2) members columns ∧
        v = .object (Row.ofColumns columns) := by
  rw [ofDatum, ofDatumMembers_eq, map_ok_iff]
  simp only [mapM_iff, Members.converted_ok]

theorem toJson_array (items : List Value) : toJson (.array items) = .array (items.map toJson) := by
  rw [toJson, toJsonItems_eq]

theorem toJson_object (columns : List (String × Value)) :
    toJson (.object columns) = .object (Members.mapValues toJson columns) := by
  rw [toJson, toJsonColumns_eq]

theorem ofJson_array (items : List Json) : ofJson (.array items) = .array (items.map ofJson) := by
  rw [ofJson, ofJsonItems_eq]

theorem ofJson_object (members : List (String × Json)) :
    ofJson (.object members) = .object (Row.ofColumns (Members.mapValues ofJson members)) := by
  rw [ofJson, ofJsonMembers_eq]

end Value

namespace Datum

theorem toJsonItems_eq (items : List Datum) : toJsonItems items = items.map toJson :=
  eq_map_of_cons rfl (fun _ _ => rfl) items

theorem toJsonMembers_eq (members : List (String × Datum)) :
    toJsonMembers members = Members.mapValues toJson members :=
  eq_map_of_cons rfl (fun _ _ => rfl) members

theorem ofJsonItems_eq (items : List Json) : ofJsonItems items = items.map ofJson :=
  eq_map_of_cons rfl (fun _ _ => rfl) items

theorem ofJsonMembers_eq (members : List (String × Json)) :
    ofJsonMembers members = Members.mapValues ofJson members :=
  eq_map_of_cons rfl (fun _ _ => rfl) members

theorem toJson_list (items : List Datum) : toJson (.list items) = .array (items.map toJson) := by
  rw [toJson, toJsonItems_eq]

theorem toJson_object (members : List (String × Datum)) :
    toJson (.object members) = .object (Members.mapValues toJson members) := by
  rw [toJson, toJsonMembers_eq]

theorem ofJson_array (items : List Json) : ofJson (.array items) = .list (items.map ofJson) := by
  rw [ofJson, ofJsonItems_eq]

theorem ofJson_object (members : List (String × Json)) :
    ofJson (.object members) = .object (Members.mapValues ofJson members) := by
  rw [ofJson, ofJsonMembers_eq]

end Datum

end RowGraph
