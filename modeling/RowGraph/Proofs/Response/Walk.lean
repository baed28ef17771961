import RowGraph.Datum.Merge
import Mathlib.Data.List.Infix
import RowGraph.Proofs.Schema.Entries
import RowGraph.Response
/-!
Walking response data along a path, and what merging does to what is met on the way. A null in
merged results stands at the same place in one of them, and a result whose key nothing else has is
shown as it is.
-/

namespace RowGraph

theorem Members.mem_set {name : String} {v : α} {members : List (String × α)} {m : String × α}
    (member : m ∈ Members.set name v members) : m = (name, v) ∨ m ∈ members := by
  induction members with
  | nil => exact .inl (List.mem_singleton.mp member)
  | cons n rest ih =>
    rw [Members.set] at member
    split at member
    · rename_i same
      rcases List.mem_cons.mp member with new | old
      · exact .inl (same ▸ new)
      · exact .inr (List.mem_cons_of_mem _ old)
    · rcases List.mem_cons.mp member with first | later
      · exact .inr (first ▸ List.mem_cons_self)
      · exact (ih later).imp_right (List.mem_cons_of_mem _)

-- All values that are given for a name.
def Members.valuesOf (name : String) (members : List (String × α)) : List α :=
  (members.filter fun m => m.1 = name).map (·.2)

theorem Members.valuesOf_cons (name : String) (m : String × α) (rest : List (String × α)) :
    Members.valuesOf name (m :: rest) =
      if m.1 = name then m.2 :: Members.valuesOf name rest else Members.valuesOf name rest := by
  by_cases same : m.1 = name <;> simp [Members.valuesOf, same]

theorem Members.valuesOf_append (name : String) (members more : List (String × α)) :
    Members.valuesOf name (members ++ more) =
      Members.valuesOf name members ++ Members.valuesOf name more := by
  rw [Members.valuesOf, List.filter_append, List.map_append]
  rfl

theorem Members.mem_valuesOf {name : String} {v : α} {members : List (String × α)} :
    v ∈ Members.valuesOf name members ↔ (name, v) ∈ members := by
  simp [Members.valuesOf]

theorem Members.length_valuesOf (name : String) (members : List (String × α)) :
    (Members.valuesOf name members).length = (members.map (·.1)).count name := by
  induction members with
  | nil => rfl
  | cons m rest ih =>
    rw [Members.valuesOf_cons, List.map_cons, List.count_cons]
    by_cases same : m.1 = name <;> simp [same, ih]

namespace Datum

-- What stands at the end of a path.
def at? : Path → Datum → Option Datum
  | [], d => some d
  | .field key :: rest, .object members => (Members.get? key members).bind (at? rest)
  | .index i :: rest, .list items => items[i]?.bind (at? rest)
  | _ :: _, _ => none

-- One result alone makes an object of one member.
theorem at?_result (key : String) (v : Datum) (rest : Path) :
    (ofResults [(key, v)]).at? (.field key :: rest) = v.at? rest := by
  simp [ofResults, addMembers, at?, Members.get?, Members.set]

-- Walking along the path meets null, at its end or before.
def MeetsNull (d : Datum) (path : Path) : Prop := ∃ q, q <+: path ∧ d.at? q = some .null

theorem meetsNull_null (path : Path) : null.MeetsNull path := ⟨[], List.nil_prefix, rfl⟩

theorem meetsNull_iff {d : Datum} {path : Path} :
    d.MeetsNull path ↔ (path.inits.any fun q => (d.at? q).any isNull) = true := by
  have isNull_iff (v : Datum) : v.isNull = true ↔ v = .null := by cases v <;> simp [isNull]
  simp [MeetsNull, List.any_eq_true, List.mem_inits, Option.any_eq_true, isNull_iff]

instance (d : Datum) (path : Path) : Decidable (d.MeetsNull path) :=
  decidable_of_iff _ meetsNull_iff.symm

theorem MeetsNull.field {members : List (String × Datum)} {key : String} {d : Datum} {rest : Path}
    (found : Members.get? key members = some d) (meets : d.MeetsNull rest) :
    (object members).MeetsNull (.field key :: rest) := by
  obtain ⟨q, inside, null⟩ := meets
  refine ⟨.field key :: q, List.cons_prefix_cons.mpr ⟨rfl, inside⟩, ?_⟩
  rw [at?, found]
  exact null

theorem MeetsNull.index {items : List Datum} {i : Nat} {d : Datum} {rest : Path}
    (found : items[i]? = some d) (meets : d.MeetsNull rest) :
    (list items).MeetsNull (.index i :: rest) := by
  obtain ⟨q, inside, null⟩ := meets
  refine ⟨.index i :: q, List.cons_prefix_cons.mpr ⟨rfl, inside⟩, ?_⟩
  rw [at?, found]
  exact null

theorem addMembers_cons (old : List (String × Datum)) (name : String) (v : Datum)
    (rest : List (String × Datum)) :
    addMembers old ((name, v) :: rest) =
      addMembers (Members.set name ((Members.get? name old).elim v (join · v)) old) rest := by
  rw [addMembers]
  cases Members.get? name old <;> rfl

-- What results that were computed separately for one key show together.
def together (first : Option Datum) (more : List Datum) : Option Datum :=
  more.foldl (fun shown d => some (shown.elim d (join · d))) first

theorem together_some (first : Datum) (more : List Datum) :
    together (some first) more = some (more.foldl join first) := by
  induction more generalizing first with
  | nil => rfl
  | cons d rest ih => exact ih (join first d)

theorem together_append (first : Option Datum) (some more : List Datum) :
    together first (some ++ more) = together (together first some) more :=
  List.foldl_append

theorem get?_addMembers (old results : List (String × Datum)) (key : String) :
    Members.get? key (addMembers old results) =
      together (Members.get? key old) (Members.valuesOf key results) := by
  induction results generalizing old with
  | nil =>
    rw [addMembers]
    rfl
  | cons r rest ih =>
    obtain ⟨name, v⟩ := r
    rw [addMembers_cons, ih, Members.get?_set, Members.valuesOf_cons]
    by_cases here : name = key
    · rw [if_pos here, if_pos here, here]
      rfl
    · rw [if_neg here, if_neg here]

-- A null at the end of a path, in whatever member of a name.
inductive NullAt : Path → Datum → Prop where
  | here : NullAt [] .null
  | field {members : List (String × Datum)} {key : String} {d : Datum} {rest : Path} :
      (key, d) ∈ members → NullAt rest d → NullAt (.field key :: rest) (.object members)
  | index {items : List Datum} {i : Nat} {d : Datum} {rest : Path} : items[i]? = some d →
      NullAt rest d → NullAt (.index i :: rest) (.list items)

-- A value without null.
def Solid (d : Datum) : Prop := ∀ path, ¬ NullAt path d

theorem Solid.string (s : String) : (Datum.string s).Solid := fun _ null => nomatch null

theorem Solid.bool (b : Bool) : (Datum.bool b).Solid := fun _ null => nomatch null

theorem Solid.enum (name : String) : (Datum.enum name).Solid := fun _ null => nomatch null

theorem nullAt_of_at? {path : Path} {d : Datum} (null : d.at? path = some .null) :
    NullAt path d := by
  induction path generalizing d with
  | nil =>
    obtain rfl := Option.some.inj null
    exact .here
  | cons s rest ih =>
    cases s with
    | field key =>
      cases d with
      | object members =>
        obtain ⟨inner, found, null⟩ := Option.bind_eq_some_iff.mp null
        exact .field (Members.mem_of_get? found) (ih null)
      | _ => cases null
    | index i =>
      cases d with
      | list items =>
        obtain ⟨inner, found, null⟩ := Option.bind_eq_some_iff.mp null
        exact .index found (ih null)
      | _ => cases null

theorem getElem?_joinItems (old items : List Datum) (i : Nat) :
    (joinItems old items)[i]? =
      old[i]?.map fun first => (items[i]?).elim first (joinItem first ·) := by
  induction old generalizing items i with
  | nil => cases items <;> simp [joinItems]
  | cons first old ih =>
    cases items with
    | nil => simp [joinItems]
    | cons item items =>
      rw [joinItems]
      cases i with
      | zero => simp
      | succ i => simpa using ih items i

-- A null in a joined value stands in one of the two.
def Joins (path : Path) (joined a b : Datum) : Prop :=
  NullAt path joined → NullAt path a ∨ NullAt path b

theorem addMembers_null {key : String} {rest : Path} (joins : ∀ a b, Joins rest (join a b) a b)
    {old results : List (String × Datum)} {d : Datum} (member : (key, d) ∈ addMembers old results)
    (null : NullAt rest d) : ∃ d', ((key, d') ∈ old ∨ (key, d') ∈ results) ∧ NullAt rest d' := by
  induction results generalizing old with
  | nil =>
    rw [addMembers] at member
    exact ⟨d, .inl member, null⟩
  | cons r more ih =>
    obtain ⟨name, v⟩ := r
    rw [addMembers_cons] at member
    obtain ⟨d', here | later, null'⟩ := ih member
    · rcases Members.mem_set here with new | old'
      · obtain ⟨rfl, rfl⟩ := Prod.mk.inj new
        cases found : Members.get? key old with
        | none =>
          rw [found] at null'
          exact ⟨v, .inr List.mem_cons_self, null'⟩
        | some first =>
          rw [found] at null'
          rcases joins first v null' with left | right
          · exact ⟨first, .inl (Members.mem_of_get? found), left⟩
          · exact ⟨v, .inr List.mem_cons_self, right⟩
      · exact ⟨d', .inl old', null'⟩
    · exact ⟨d', .inr (List.mem_cons_of_mem _ later), null'⟩

theorem joinItem_cases (a b : Datum) : joinItem a b = a ∨ ∃ old members, a = .object old ∧
    b = .object members ∧ joinItem a b = .object (addMembers old members) := by
  cases b with
  | object members =>
    cases a with
    | object old => exact .inr ⟨old, members, rfl, rfl, by rw [joinItem]⟩
    | _ => exact .inl (by simp [joinItem])
  | _ => exact .inl (by simp [joinItem])

theorem join_cases (a b : Datum) : join a b = joinItem a b ∨ ∃ old items, a = .list old ∧
    b = .list items ∧ join a b = .list (joinItems old items) := by
  cases b with
  | list items =>
    cases a with
    | list old => exact .inr ⟨old, items, rfl, rfl, by rw [join]⟩
    | _ => exact .inl (by simp [join, joinItem])
  | object members => cases a <;> exact .inl (by simp [join, joinItem])
  | _ => exact .inl (by simp [join, joinItem])

-- One level down members are joined as values.
theorem joinItem_null {path : Path}
    (deeper : ∀ key rest, path = .field key :: rest → ∀ a b, Joins rest (join a b) a b)
    (a b : Datum) : Joins path (joinItem a b) a b := by
  intro null
  rcases joinItem_cases a b with same | ⟨old, members, rfl, rfl, same⟩
  · exact .inl (same ▸ null)
  · rw [same] at null
    cases null with
    | field member null =>
      obtain ⟨d, here | there, null⟩ := addMembers_null (deeper _ _ rfl) member null
      · exact .inl (.field here null)
      · exact .inr (.field there null)

-- And elements as items.
theorem join_null {path : Path} (items : ∀ a b, Joins path (joinItem a b) a b)
    (deeper : ∀ i rest, path = .index i :: rest → ∀ a b, Joins rest (joinItem a b) a b)
    (a b : Datum) : Joins path (join a b) a b := by
  intro null
  rcases join_cases a b with same | ⟨old, new, rfl, rfl, same⟩
  · rw [same] at null
    exact items a b null
  · rw [same] at null
    cases null with
    | @index _ i d _ found null =>
      rw [getElem?_joinItems] at found
      obtain ⟨first, here, joined⟩ := Option.map_eq_some_iff.mp found
      cases there : new[i]? with
      | none =>
        rw [there] at joined
        obtain rfl : first = d := joined
        exact .inl (.index here null)
      | some second =>
        rw [there] at joined
        subst joined
        rcases deeper i _ rfl first second null with left | right
        · exact .inl (.index here left)
        · exact .inr (.index there right)

theorem joins_null (path : Path) :
    (∀ a b, Joins path (join a b) a b) ∧ ∀ a b, Joins path (joinItem a b) a b := by
  induction path with
  | nil =>
    have items : ∀ a b, Joins [] (joinItem a b) a b :=
      joinItem_null fun _ _ absurd => nomatch absurd
    exact ⟨join_null items (fun _ _ absurd => nomatch absurd), items⟩
  | cons s rest ih =>
    have items : ∀ a b, Joins (s :: rest) (joinItem a b) a b := by
      refine joinItem_null fun key inner same => ?_
      obtain ⟨_, rfl⟩ := List.cons.inj same
      exact ih.1
    refine ⟨join_null items fun i inner same => ?_, items⟩
    obtain ⟨_, rfl⟩ := List.cons.inj same
    exact ih.2

-- Where a value meets null along a path, it is null or has a part that does.
theorem MeetsNull.split {d : Datum} {path : Path} (meets : d.MeetsNull path) : d = .null ∨
    (∃ key rest members v, path = .field key :: rest ∧ d = .object members ∧
      Members.get? key members = some v ∧ v.MeetsNull rest) ∨
    ∃ i rest items v, path = .index i :: rest ∧ d = .list items ∧ items[i]? = some v ∧
      v.MeetsNull rest := by
  obtain ⟨q, ⟨after, rfl⟩, null⟩ := meets
  cases q with
  | nil => exact .inl (Option.some.inj null)
  | cons s q =>
    cases s with
    | field key =>
      cases d with
      | object members =>
        obtain ⟨v, found, null⟩ := Option.bind_eq_some_iff.mp null
        exact .inr (.inl ⟨key, _, members, v, rfl, rfl, found, q, List.prefix_append _ _, null⟩)
      | _ => cases null
    | index i =>
      cases d with
      | list items =>
        obtain ⟨v, found, null⟩ := Option.bind_eq_some_iff.mp null
        exact .inr (.inr ⟨i, _, items, v, rfl, rfl, found, q, List.prefix_append _ _, null⟩)
      | _ => cases null

-- What was shown first keeps its nulls, whatever is joined to it.
def Keeps (path : Path) (joining : Datum → Datum → Datum) : Prop :=
  ∀ a b : Datum, a.MeetsNull path → (joining a b).MeetsNull path

theorem Keeps.together {path : Path} (keeps : Keeps path join) {first : Datum}
    (meets : first.MeetsNull path) (more : List Datum) :
    ∃ d, together (some first) more = some d ∧ d.MeetsNull path := by
  rw [together_some]
  refine ⟨_, rfl, ?_⟩
  induction more generalizing first with
  | nil => exact meets
  | cons d rest ih => exact ih (keeps first d meets)

theorem keeps_join (path : Path) : Keeps path join ∧ Keeps path joinItem := by
  have item {path : Path} (deeper : ∀ key rest, path = .field key :: rest → Keeps rest join) :
      Keeps path joinItem := by
    intro a b meets
    rcases joinItem_cases a b with same | ⟨old, members, rfl, rfl, same⟩
    · rw [same]
      exact meets
    · rw [same]
      obtain absurd | ⟨key, rest, _, v, rfl, object, found, inner⟩ | ⟨_, _, _, _, _, absurd, _⟩ :=
        meets.split
      · cases absurd
      · cases object
        obtain ⟨d, shown, meets⟩ :=
          (deeper key rest rfl).together inner (Members.valuesOf key members)
        exact .field (by rw [get?_addMembers, found, shown]) meets
      · cases absurd
  induction path with
  | nil =>
    have items : Keeps [] joinItem := by
      refine item fun key rest absurd => ?_
      cases absurd
    refine ⟨fun a b meets => ?_, items⟩
    rcases join_cases a b with same | ⟨old, new, rfl, rfl, same⟩
    · rw [same]
      exact items a b meets
    · obtain absurd | ⟨_, _, _, _, absurd, _⟩ | ⟨_, _, _, _, absurd, _⟩ := meets.split <;>
        cases absurd
  | cons s rest ih =>
    have items : Keeps (s :: rest) joinItem := by
      refine item fun key inner same => ?_
      obtain ⟨_, rfl⟩ := List.cons.inj same
      exact ih.1
    refine ⟨fun a b meets => ?_, items⟩
    rcases join_cases a b with same | ⟨old, new, rfl, rfl, same⟩
    · rw [same]
      exact items a b meets
    · rw [same]
      obtain absurd | ⟨_, _, _, _, _, absurd, _⟩ | ⟨i, _, _, v, path, list, found, meets⟩ := meets.split
      · cases absurd
      · cases absurd
      · cases list
        obtain ⟨rfl, rfl⟩ := List.cons.inj path
        refine .index (d := (new[i]?).elim v (joinItem v ·)) ?_ ?_
        · rw [getElem?_joinItems, found]
          rfl
        · cases new[i]? with
          | none => exact meets
          | some d => exact ih.2 v d meets

-- A result with a null on the way shows it, unless what is shown before it stands in the way.
theorem ofResults_meets {before after : List (String × Datum)} {key : String} {d : Datum}
    {rest : Path} (meets : d.MeetsNull rest) :
    (ofResults (before ++ (key, d) :: after)).MeetsNull (.field key :: rest) ∨
      ∃ first more, Members.valuesOf key before = first :: more ∧
        ¬ (join (more.foldl join first) d).MeetsNull rest := by
  have shown : Members.get? key (addMembers [] (before ++ (key, d) :: after)) =
      together (together none (Members.valuesOf key before)) (d :: Members.valuesOf key after) := by
    rw [get?_addMembers, Members.valuesOf_append, Members.valuesOf_cons, if_pos rfl,
      together_append]
    rfl
  cases earlier : Members.valuesOf key before with
  | nil =>
    obtain ⟨v, last, meets⟩ := (keeps_join rest).1.together meets (Members.valuesOf key after)
    rw [earlier] at shown
    exact .inl (.field (shown.trans last) meets)
  | cons first more =>
    by_cases joined : (join (more.foldl join first) d).MeetsNull rest
    · obtain ⟨v, last, meets⟩ := (keeps_join rest).1.together joined (Members.valuesOf key after)
      rw [earlier] at shown
      change _ = together (together (some first) more) _ at shown
      rw [together_some] at shown
      exact .inl (.field (shown.trans last) meets)
    · exact .inr ⟨first, more, rfl, joined⟩

-- A null in merged results stands in one of them.
theorem ofResults_null {results : List (String × Datum)} {path : Path}
    (null : NullAt path (ofResults results)) :
    ∃ key d rest, path = .field key :: rest ∧ (key, d) ∈ results ∧ NullAt rest d := by
  cases null with
  | @field _ key d rest member null =>
    obtain ⟨d', absurd | there, null⟩ := addMembers_null (joins_null rest).1 member null
    · cases absurd
    · exact ⟨key, d', rest, rfl, there, null⟩

end Datum

end RowGraph
