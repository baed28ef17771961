import RowGraph.Proofs.Schema.Last
import RowGraph.Schema.Resolver
/-!
What is in a map. The entries of an ordered map are its lookups, and so are those of a map by type
and field. Main statement: the places for hooks are the fields that have a resolver, and none of
them holds a hook.
-/

namespace RowGraph

theorem Assoc.lookup_of_mem {κ : Type} [Ord κ] [Std.TransOrd κ] {k : κ} {a : α} :
    ∀ {m : List (κ × α)}, Sorted m → (k, a) ∈ m → lookup k m = some a
  | (k', a') :: rest, sorted, member => by
    obtain ⟨first, later⟩ := List.pairwise_cons.mp sorted
    unfold lookup
    rcases List.mem_cons.mp member with same | inside
    · obtain ⟨rfl, rfl⟩ := Prod.mk.inj same
      rw [if_pos Std.ReflCmp.compare_self]
    · have greater : compare k k' = .gt := Std.OrientedCmp.gt_iff_lt.mpr (first _ inside)
      rw [if_neg (by simp [greater])]
      exact lookup_of_mem later inside

theorem Assoc.mem_of_lookup {κ : Type} [Ord κ] [Std.LawfulEqOrd κ] {k : κ} {a : α} :
    ∀ {m : List (κ × α)}, lookup k m = some a → (k, a) ∈ m
  | [], found => nomatch found
  | (k', a') :: rest, found => by
    unfold lookup at found
    split at found
    · rename_i equal
      obtain rfl := Std.LawfulEqCmp.eq_of_compare equal
      obtain rfl := Option.some.inj found
      exact List.mem_cons_self
    · exact List.mem_cons_of_mem _ (mem_of_lookup found)

theorem OrderedMap.mem_toList {κ : Type} [Ord κ] [Std.TransOrd κ] [Std.LawfulEqOrd κ]
    {m : OrderedMap κ α} {k : κ} {a : α} : (k, a) ∈ m.toList ↔ m.get? k = some a :=
  ⟨Assoc.lookup_of_mem m.sorted, Assoc.mem_of_lookup⟩

namespace FieldMap

theorem mem_toList {m : FieldMap α} {type field : String} {a : α} :
    (type, field, a) ∈ m.toList ↔ m.get? type field = some a := by
  unfold toList get?
  simp only [List.mem_flatMap, List.mem_map, Prod.mk.injEq, Option.bind_eq_some_iff]
  constructor
  · rintro ⟨⟨type, fields⟩, outer, ⟨field, a⟩, inner, rfl, rfl, rfl⟩
    exact ⟨fields, OrderedMap.mem_toList.mp outer, OrderedMap.mem_toList.mp inner⟩
  · rintro ⟨fields, outer, inner⟩
    exact ⟨(type, fields), OrderedMap.mem_toList.mpr outer, (field, a),
      OrderedMap.mem_toList.mpr inner, rfl, rfl, rfl⟩

theorem contains_iff {m : FieldMap α} {type field : String} :
    m.contains type field = true ↔ ∃ a, m.get? type field = some a := Option.isSome_iff_exists

theorem get?_empty (type field : String) : (empty : FieldMap α).get? type field = none := rfl

-- No type is there without a field.
def Full (m : FieldMap α) : Prop :=
  ∀ type fields, m.types.get? type = some fields → ∃ field a, fields.get? field = some a

theorem full_empty : (empty : FieldMap α).Full := fun _ _ found => nomatch found

theorem Full.insert {m : FieldMap α} (full : m.Full) (type field : String) (a : α) :
    (m.insert type field a).Full := by
  intro type' fields found
  unfold FieldMap.insert at found
  rw [OrderedMap.get?_insert] at found
  split at found
  · obtain rfl := Option.some.inj found
    refine ⟨field, a, ?_⟩
    rw [OrderedMap.get?_insert, if_pos Std.ReflCmp.compare_self]
  · exact full type' fields found

theorem full_ofList (entries : List (String × String × α)) : (ofList entries).Full := by
  unfold ofList
  induction entries using List.reverseRecOn with
  | nil => exact full_empty
  | append_singleton entries e ih =>
    rw [List.foldl_append, List.foldl_cons, List.foldl_nil]
    exact ih.insert _ _ _

-- Full maps with the same lookups are the same map.
theorem Full.ext {m n : FieldMap α} (full : m.Full) (full' : n.Full)
    (same : ∀ type field, m.get? type field = n.get? type field) : m = n := by
  obtain ⟨m⟩ := m
  obtain ⟨n⟩ := n
  refine congrArg FieldMap.mk (OrderedMap.ext_get? fun type => ?_)
  have agree (field : String) : (m.get? type).bind (fun fields => fields.get? field) =
      (n.get? type).bind fun fields => fields.get? field := same type field
  cases left : m.get? type with
  | none =>
    cases right : n.get? type with
    | none => rfl
    | some fields =>
      obtain ⟨field, a, found⟩ := full' type fields right
      have absent := agree field
      rw [left, right, Option.bind_none, Option.bind_some, found] at absent
      cases absent
  | some fields =>
    cases right : n.get? type with
    | none =>
      obtain ⟨field, a, found⟩ := full type fields left
      have absent := agree field
      rw [left, right, Option.bind_none, Option.bind_some, found] at absent
      cases absent
    | some fields' =>
      rw [left, right] at agree
      rw [OrderedMap.ext_get? (m := fields) (n := fields') agree]

-- The lookups of one type are those among the entries of that type.
theorem get?_ofList_type {entries entries' : List (String × String × α)} {type : String}
    (same : entries'.filter (fun e => e.1 = type) = entries.filter fun e => e.1 = type)
    (field : String) : (ofList entries').get? type field = (ofList entries).get? type field := by
  have inside (es : List (String × String × α)) :
      last? (fun e => e.1 = type && e.2.1 = field) es =
        last? (fun e => e.2.1 = field) (es.filter fun e => e.1 = type) := by
    unfold last?
    rw [← List.filter_reverse, List.find?_filter]
    simp only [decide_eq_true_eq, Bool.decide_and]
  rw [get?_ofList, get?_ofList, inside, inside, same]

-- Only the order of the entries of one type counts.
theorem ofList_ext {entries entries' : List (String × String × α)}
    (same : ∀ type, entries'.filter (fun e => e.1 = type) = entries.filter fun e => e.1 = type) :
    ofList entries' = ofList entries :=
  Full.ext (full_ofList _) (full_ofList _) fun type field => get?_ofList_type (same type) field

end FieldMap

namespace HookMap

-- A place that was there keeps its hooks.
theorem get?_placeholder (m : HookMap) (type field type' field' : String) :
    FieldMap.get? (m.placeholder type field) type' field' =
      if type' = type ∧ field' = field then some ((FieldMap.get? m type' field').getD [])
      else FieldMap.get? m type' field' := by
  rw [placeholder, FieldMap.get?_insert]
  split
  · rename_i same
    rw [same.1, same.2]
  · rfl

-- A place for every field that is named, each of them empty.
theorem get?_placeholders {α : Type} (places : List (String × String × α)) (type field : String) :
    FieldMap.get? (places.foldl (fun m e => placeholder m e.1 e.2.1) FieldMap.empty) type field =
      if places.any fun e => e.1 = type && e.2.1 = field then some [] else none := by
  induction places using List.reverseRecOn with
  | nil => rfl
  | append_singleton rest e ih =>
    rw [List.foldl_append, List.foldl_cons, List.foldl_nil, get?_placeholder, ih, List.any_append,
      List.any_cons, List.any_nil, Bool.or_false]
    by_cases here : type = e.1 ∧ field = e.2.1
    · obtain ⟨rfl, rfl⟩ := here
      have named : (decide (e.1 = e.1) && decide (e.2.1 = e.2.1)) = true := by simp
      rw [if_pos ⟨rfl, rfl⟩, named, Bool.or_true, if_pos rfl]
      split <;> rfl
    · have other : (decide (e.1 = type) && decide (e.2.1 = field)) = false := by
        rw [Bool.and_eq_false_iff]
        by_cases named : e.1 = type
        · exact .inr (decide_eq_false fun same => here ⟨named.symm, same.symm⟩)
        · exact .inl (decide_eq_false named)
      rw [if_neg here, other, Bool.or_false]

theorem get?_places {α : Type} (m : FieldMap α) (type field : String) :
    FieldMap.get? (m.toList.foldl (fun h e => placeholder h e.1 e.2.1) FieldMap.empty) type field =
      if m.contains type field then some [] else none := by
  have named : (m.toList.any fun e => e.1 = type && e.2.1 = field) = m.contains type field := by
    rw [Bool.eq_iff_iff, FieldMap.contains_iff, List.any_eq_true]
    simp only [Bool.and_eq_true, decide_eq_true_eq]
    constructor
    · rintro ⟨⟨type, field, a⟩, member, rfl, rfl⟩
      exact ⟨a, FieldMap.mem_toList.mp member⟩
    · rintro ⟨a, found⟩
      exact ⟨(type, field, a), FieldMap.mem_toList.mpr found, rfl, rfl⟩
  rw [get?_placeholders, named]

end HookMap

end RowGraph
