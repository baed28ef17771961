import RowGraph.Proofs.Value.Conversion
/-!
Stored values as JSON and read back. A JSON value can be taken for a GraphQL value, and with it the
conversions of stored values to and from JSON are those to and from GraphQL values wherever both
have something to say. Main statement: a stored value comes back with null for what JSON has no
value for, a JSON value with numbers that are held as they are comes back unchanged, and a stored
value is the same JSON on both ways out.
-/

namespace RowGraph

open Nested

-- Members are in key order at every depth, as a reader delivers them.
def Json.Ordered (j : Json) : Prop := ∀ members, PartOf (.object members) j → Assoc.Sorted members

theorem Json.Ordered.inner {i j : Json} (ordered : j.Ordered) (member : i ∈ Nested.inner j) :
    i.Ordered := fun members part => ordered members (.inside member part)

namespace Datum

theorem toJson_ofJson (j : Json) : (ofJson j).toJson = j := by
  induction j using Nested.induct with
  | step j ih =>
    cases j with
    | array items =>
      have each : items.map (fun i => (ofJson i).toJson) = items.map id := List.map_congr_left ih
      rw [ofJson_array, toJson_list, List.map_map]
      exact congrArg Json.array (each.trans (List.map_id items))
    | object members =>
      rw [ofJson_object, toJson_object, Members.mapValues_mapValues, Members.mapValues_congr ih,
        Members.mapValues_id]
    | _ => rfl

theorem inner_ofJson (j : Json) : Nested.inner (ofJson j) = (Nested.inner j).map ofJson := by
  cases j with
  | array items =>
    rw [ofJson_array]
    rfl
  | object members =>
    rw [ofJson_object]
    exact Members.values_mapValues ofJson members
  | _ => rfl

theorem ofJson_verbatim {j : Json}
    (distinct : ∀ members, PartOf (.object members) j → (members.map Prod.fst).Nodup)
    (exact : ∀ n, PartOf (.number n) j → n.Exact) : (ofJson j).Verbatim := by
  refine ⟨fun members part => ?_, fun name part => ?_, fun n part => ?_⟩ <;>
    obtain ⟨i, held, same⟩ := part.of_map inner_ofJson
  · cases i with
    | object given =>
      rw [ofJson_object] at same
      rw [Datum.object.inj same, Members.names_mapValues]
      exact distinct given held
    | _ => cases same
  · cases i <;> cases same
  · cases i with
    | number n' =>
      obtain rfl : n = n' := Datum.number.inj same
      exact exact n held
    | _ => cases same

end Datum

namespace Value

-- JSON has no value for it.
def isUnwritable : Value → Bool
  | .none => true
  | .float f => !isFinite f
  | _ => false

theorem ofJson_toJson {v : Value} (ordered : v.Ordered) :
    ofJson v.toJson = v.blanked isUnwritable := by
  induction v using Nested.induct with
  | step v ih =>
    have within (u) (member : u ∈ Nested.inner v) : ofJson u.toJson = u.blanked isUnwritable :=
      ih u member (ordered.inner member)
    cases v with
    | array items =>
      rw [toJson_array, ofJson_array, List.map_map, blanked, blankedItems_eq]
      exact congrArg Value.array (List.map_congr_left within)
    | object columns =>
      rw [toJson_object, ofJson_object, Members.mapValues_mapValues, Members.mapValues_congr within,
        Row.ofColumns_sorted (Members.sorted_mapValues ordered.columns), blanked, blankedColumns_eq]
    | float f =>
      cases finite : isFinite f <;>
        simp [toJson, ofJson, blanked, isUnwritable, Number.toFloat, finite]
    | _ => rfl

theorem ofJson_toJson_whole {v : Value} (ordered : v.Ordered) (present : ¬ PartOf .none v)
    (finite : ∀ f, PartOf (.float f) v → isFinite f = true) : ofJson v.toJson = v := by
  rw [ofJson_toJson ordered]
  refine blanked_whole fun u part => ?_
  cases u with
  | none => exact absurd part present
  | float f => simp [isUnwritable, finite f part]
  | _ => rfl

theorem inner_toJson (v : Value) : Nested.inner v.toJson = (Nested.inner v).map toJson := by
  cases v with
  | array items =>
    rw [toJson_array]
    rfl
  | object columns =>
    rw [toJson_object]
    exact Members.values_mapValues toJson columns
  | float f => cases finite : isFinite f <;> simp [toJson, finite, Nested.inner, inner, Json.inner]
  | _ => rfl

theorem toJson_ordered {v : Value} (ordered : v.Ordered) : v.toJson.Ordered := by
  intro members part
  obtain ⟨u, held, same⟩ := part.of_map inner_toJson
  cases u with
  | object columns =>
    rw [toJson_object] at same
    rw [Json.object.inj same]
    exact Members.sorted_mapValues (ordered columns held)
  | float f => cases finite : isFinite f <;> simp [toJson, finite] at same
  | _ => cases same

theorem toJson_ofJson {j : Json} (ordered : j.Ordered)
    (exact : ∀ n, PartOf (.number n) j → n.Exact) : (ofJson j).toJson = j := by
  induction j using Nested.induct with
  | step j ih =>
    have within (i) (member : i ∈ Nested.inner j) : (ofJson i).toJson = i :=
      ih i member (ordered.inner member) fun n part => exact n (.inside member part)
    cases j with
    | array items =>
      have each : items.map (fun i => (ofJson i).toJson) = items.map id :=
        List.map_congr_left within
      rw [ofJson_array, toJson_array, List.map_map]
      exact congrArg Json.array (each.trans (List.map_id items))
    | object members =>
      have sorted : Assoc.Sorted members := ordered members (.whole _)
      rw [ofJson_object, Row.ofColumns_sorted (Members.sorted_mapValues sorted), toJson_object,
        Members.mapValues_mapValues, Members.mapValues_congr within, Members.mapValues_id]
    | number n =>
      have held := exact n (.whole _)
      cases n with
      | int n => rfl
      | wide n => exact held.elim
      | float f => exact if_pos held
    | _ => rfl

-- The two ways in.
theorem ofDatum_ofJson (j : Json) : ofDatum (Datum.ofJson j) = .ok (ofJson j) := by
  induction j using Nested.induct with
  | step j ih =>
    cases j with
    | array items =>
      rw [Datum.ofJson_array, ofJson_array]
      refine ofDatum_list.mpr ⟨_, ?_, rfl⟩
      rw [List.forall₂_map_left_iff, List.forall₂_map_right_iff, List.forall₂_same]
      exact ih
    | object members =>
      rw [Datum.ofJson_object, ofJson_object]
      refine ofDatum_object.mpr ⟨_, ?_, rfl⟩
      rw [Members.mapValues, Members.mapValues, List.forall₂_map_left_iff,
        List.forall₂_map_right_iff, List.forall₂_same]
      exact fun m member => ⟨rfl, ih m.2 (List.mem_map_of_mem member)⟩
    | number n => cases n <;> rfl
    | _ => rfl

-- The two ways out.
theorem toDatum_eq {v : Value} {d : Datum} (made : v.toDatum = .ok d) :
    d = Datum.ofJson v.toJson := by
  induction v using Nested.induct generalizing d with
  | step v ih =>
    cases v with
    | array items =>
      obtain ⟨ds, each, rfl⟩ := toDatum_array.mp made
      rw [toJson_array, Datum.ofJson_array, List.map_map]
      exact congrArg Datum.list (eq_map_of_forall₂ each fun u member _ made => ih u member made)
    | object columns =>
      obtain ⟨members, each, rfl⟩ := toDatum_object.mp made
      rw [toJson_object, Datum.ofJson_object, Members.mapValues_mapValues]
      exact congrArg Datum.object (eq_map_of_forall₂ each fun c member _ both =>
        Prod.ext both.1.symm (ih c.2 (List.mem_map_of_mem member) both.2))
    | float f =>
      have finite := toDatum_finite made (.whole _)
      rw [toDatum, if_pos finite] at made
      rw [toJson, if_pos finite]
      exact (Except.ok.inj made).symm
    | _ => exact (Except.ok.inj made).symm

-- The members of an object may have been given in any order.
theorem toJson_ofJson_distinct {j : Json}
    (distinct : ∀ members, PartOf (.object members) j → (members.map Prod.fst).Nodup)
    (exact : ∀ n, PartOf (.number n) j → n.Exact) :
    (Datum.ofJson j).Reordered (Datum.ofJson (ofJson j).toJson) := by
  obtain ⟨shown, made, same⟩ :=
    toDatum_ofDatum (Datum.ofJson_verbatim distinct exact) (ofDatum_ofJson j)
  rw [← toDatum_eq made]
  exact same

theorem toJson_toDatum {v : Value} {d : Datum} (made : v.toDatum = .ok d) :
    d.toJson = v.toJson := by
  rw [toDatum_eq made, Datum.toJson_ofJson]

end Value

open Value in
theorem json_reads_back :
    (∀ v : Value, v.Ordered →
      v.toJson.Ordered ∧ ofJson v.toJson = v.blanked isUnwritable ∧
        (¬ PartOf .none v → (∀ f, PartOf (.float f) v → isFinite f = true) → ofJson v.toJson = v)) ∧
    (∀ j : Json, (∀ n, PartOf (.number n) j → n.Exact) →
      (j.Ordered → (ofJson j).toJson = j) ∧
        ((∀ members, PartOf (.object members) j → (members.map Prod.fst).Nodup) →
          (Datum.ofJson j).Reordered (Datum.ofJson (ofJson j).toJson))) ∧
    ∀ (v : Value) (d : Datum), v.toDatum = .ok d → d.toJson = v.toJson :=
  ⟨fun _ ordered => ⟨toJson_ordered ordered, ofJson_toJson ordered, ofJson_toJson_whole ordered⟩,
    fun _ exact => ⟨fun ordered => toJson_ofJson ordered exact,
      fun distinct => toJson_ofJson_distinct distinct exact⟩,
    fun _ _ => toJson_toDatum⟩

-- A quotient that is no number comes back as null, as what is absent does.
def bookRows : Value := .array [bookRow, .float (0.0 / 0.0)]

def yearAndWeight : Value := .array [.int 1965, .float 2.0]

def bookJson : Json := .object [("ratio", .number (.float 0.5)), ("title", .string "Dune")]

def bookJsonTurned : Json := .object [("title", .string "Dune"), ("ratio", .number (.float 0.5))]

open Value in
theorem book_reads_back :
    (bookRows.Ordered ∧ ofJson bookRows.toJson = .array [.object
      [("notes", .array [.null, .float (-0.0), .float 2.0]), ("title", .string "Dune"),
        ("year", .int 1965)], .null]) ∧
    ofJson yearAndWeight.toJson = yearAndWeight ∧ (ofJson bookJson).toJson = bookJson ∧
    (Datum.ofJson bookJsonTurned).Reordered (Datum.ofJson (ofJson bookJsonTurned).toJson) ∧
    bookRow.toDatum = .ok bookShown ∧ bookShown.toJson = bookRow.toJson := by
  obtain ⟨values, texts, ways⟩ := json_reads_back
  have numbers : isFinite (-0.0) = true ∧ isFinite 2.0 = true ∧ isFinite 0.5 = true ∧
      isFinite (0.0 / 0.0) = false := by decide +kernel
  have blank : bookRows.blanked isUnwritable = .array [.object
      [("notes", .array [.null, .float (-0.0), .float 2.0]), ("title", .string "Dune"),
        ("year", .int 1965)], .null] := by
    simp only [bookRows, bookRow, blanked, blankedItems, blankedColumns, isUnwritable, numbers]
    rfl
  have ordered : bookRows.Ordered := by
    refine .of_inner (by simp [bookRows]) ?_
    simp only [bookRows, Nested.inner, Value.inner, List.forall_mem_cons]
    exact ⟨bookRow_ordered, .of_inner (by simp) (by simp [Nested.inner, Value.inner]), by simp⟩
  have parts (u) : PartOf u yearAndWeight ↔
      u = .array [.int 1965, .float 2.0] ∨ u = .int 1965 ∨ u = .float 2.0 := by
    rw [part_shallow (by simp [yearAndWeight, Nested.inner, Value.inner])]
    simp [yearAndWeight, Nested.inner, Value.inner]
  have whole : yearAndWeight.Ordered ∧ ¬ PartOf .none yearAndWeight := by
    simp [Value.Ordered, parts]
  have finite (f) (part : PartOf (.float f) yearAndWeight) : isFinite f = true := by
    obtain rfl : f = 2.0 := by simpa [parts] using part
    exact numbers.2.1
  have ratio (u) : PartOf u bookJson ↔ u = .object
      [("ratio", .number (.float 0.5)), ("title", .string "Dune")] ∨
        u = .number (.float 0.5) ∨ u = .string "Dune" := by
    rw [part_shallow (by simp [bookJson, Nested.inner, Json.inner])]
    simp [bookJson, Nested.inner, Json.inner]
  have ratio' (u) : PartOf u bookJsonTurned ↔ u = .object
      [("title", .string "Dune"), ("ratio", .number (.float 0.5))] ∨
        u = .string "Dune" ∨ u = .number (.float 0.5) := by
    rw [part_shallow (by simp [bookJsonTurned, Nested.inner, Json.inner])]
    simp [bookJsonTurned, Nested.inner, Json.inner]
  have exact (n : Number)
      (part : PartOf (.number n) bookJson ∨ PartOf (.number n) bookJsonTurned) : n.Exact := by
    obtain rfl : n = .float 0.5 := by simpa [ratio, ratio'] using part
    exact numbers.2.2.1
  have sorted : bookJson.Ordered := by
    intro members part
    obtain rfl := by simpa [ratio] using part
    unfold Assoc.Sorted
    decide
  have distinct (members : List (String × Json)) (part : PartOf (.object members) bookJsonTurned) :
      (members.map Prod.fst).Nodup := by
    obtain rfl := by simpa [ratio'] using part
    decide
  exact ⟨⟨ordered, (values bookRows ordered).2.1.trans blank⟩,
    (values yearAndWeight whole.1).2.2 whole.2 finite,
    (texts bookJson fun n part => exact n (.inl part)).1 sorted,
    (texts bookJsonTurned fun n part => exact n (.inr part)).2 distinct,
    bookRow_toDatum, ways bookRow bookShown bookRow_toDatum⟩

end RowGraph
