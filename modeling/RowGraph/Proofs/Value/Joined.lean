import RowGraph.Proofs.Response.Walk
import RowGraph.Proofs.Schema.Wrapping
import RowGraph.Proofs.Value.Stored
/-!
Results for one key that all show one written value. Joining them comes to a value that shows it as
well, whichever of them is first and in whatever order their members come. Main statement: what holds
of all results for a key, and of what two such results are joined to, holds of what the object that is
made of the results has under that key.
-/

namespace RowGraph

namespace Members

theorem mem_of_final? {α : Type} {name : String} {members : List (String × α)} {a : α}
    (found : final? name members = some a) : (name, a) ∈ members := by
  obtain ⟨m, last, rfl⟩ := Option.map_eq_some_iff.mp found
  obtain ⟨member, called⟩ := last?_some last
  exact of_decide_eq_true called ▸ member

theorem nodup_set {α : Type} {name : String} {v : α} {members : List (String × α)}
    (distinct : (members.map Prod.fst).Nodup) : ((set name v members).map Prod.fst).Nodup := by
  induction members with
  | nil => simp [set]
  | cons m rest ih =>
    obtain ⟨n, w⟩ := m
    obtain ⟨fresh, distinct⟩ := List.nodup_cons.mp distinct
    rw [set]
    split
    · exact List.nodup_cons.mpr ⟨fresh, distinct⟩
    · rename_i other
      refine List.nodup_cons.mpr ⟨fun inside => fresh ?_, ih distinct⟩
      obtain ⟨m, member, called⟩ := List.mem_map.mp inside
      rcases mem_set member with rfl | old
      · exact absurd called.symm other
      · exact called ▸ List.mem_map_of_mem old

end Members

namespace Datum

theorem nodup_addMembers {old new : List (String × Datum)} (distinct : (old.map Prod.fst).Nodup) :
    ((addMembers old new).map Prod.fst).Nodup := by
  induction new generalizing old with
  | nil =>
    rw [addMembers]
    exact distinct
  | cons m rest ih =>
    obtain ⟨name, v⟩ := m
    rw [addMembers_cons]
    exact ih (Members.nodup_set distinct)

-- What values have in common that are put together, their join has as well.
theorem together_closed {P : Datum → Prop} (joins : ∀ a b, P a → P b → P (join a b))
    {first : Option Datum} {more : List Datum} (old : ∀ d, first = some d → P d)
    (new : ∀ d ∈ more, P d) : ∀ d, together first more = some d → P d := by
  induction more generalizing first with
  | nil => exact old
  | cons m rest ih =>
    refine ih (fun d same => ?_) fun d member => new d (List.mem_cons_of_mem _ member)
    obtain rfl := Option.some.inj same
    have here := new m List.mem_cons_self
    cases first with
    | none => exact here
    | some d => exact joins d m (old d rfl) here

-- Values that show the same can be joined.
def Joinable (written : Datum) : Prop :=
  ∀ a b, written.Shows a → written.Shows b → written.Shows (join a b)

def JoinableItem (written : Datum) : Prop :=
  ∀ a b, written.Shows a → written.Shows b → written.Shows (joinItem a b)

theorem joinMembers_shows {written old new : List (String × Datum)}
    (each : ∀ m ∈ written, m.2.Joinable) (left : (object written).Shows (.object old))
    (right : (object written).Shows (.object new)) :
    (object written).Shows (.object (addMembers old new)) := by
  cases left with
  | text absurd => cases absurd
  | object olds distinct =>
    cases right with
    | text absurd => cases absurd
    | object news distinct' =>
      refine .object (fun name => ?_) (nodup_addMembers distinct)
      have unique (v : Datum) (member : v ∈ Members.valuesOf name new) :
          Members.get? name new = some v :=
        Members.get?_of_mem distinct' (Members.mem_valuesOf.mp member)
      have olds := olds name
      have news := news name
      rw [get?_addMembers]
      cases final : Members.final? name written with
      | none =>
        rw [final] at olds news
        have absent : Members.valuesOf name new = [] :=
          List.eq_nil_iff_forall_not_mem.mpr fun v member => by
            rw [unique v member] at news
            cases news
        rw [absent]
        generalize Members.get? name old = first at olds ⊢
        cases olds
        exact .none
      | some w =>
        rw [final] at olds news
        have inside : (name, w) ∈ written := Members.mem_of_final? final
        have more (v : Datum) (member : v ∈ Members.valuesOf name new) : w.Shows v := by
          rw [unique v member] at news
          cases news with
          | some shows => exact shows
        generalize Members.get? name old = first at olds ⊢
        cases olds with
        | some shows =>
          rw [together_some]
          exact .some (together_closed (each _ inside)
            (fun _ same => Option.some.inj same ▸ shows) more _ (together_some _ _))

theorem joinItems_shows {written old new : List Datum} (each : ∀ d ∈ written, d.JoinableItem)
    (left : List.Forall₂ Shows written old) (right : List.Forall₂ Shows written new) :
    List.Forall₂ Shows written (joinItems old new) := by
  induction left generalizing new with
  | nil =>
    cases right
    rw [joinItems]
    exact .nil
  | cons first _ ih =>
    cases right with
    | cons first' right =>
      rw [joinItems]
      exact .cons (each _ List.mem_cons_self _ _ first first')
        (ih (fun d member => each d (List.mem_cons_of_mem _ member)) right)

-- Whether a value can be joined is decided by what it is made of.
theorem joinable_of {written : Datum}
    (members : ∀ ms, written = .object ms → ∀ m ∈ ms, m.2.Joinable)
    (items : ∀ ds, written = .list ds → ∀ d ∈ ds, d.JoinableItem) :
    written.JoinableItem ∧ written.Joinable := by
  have item : written.JoinableItem := by
    intro a b left right
    rcases joinItem_cases a b with same | ⟨old, new, rfl, rfl, same⟩
    · rw [same]
      exact left
    · rw [same]
      obtain ⟨ms, rfl⟩ : ∃ ms, written = .object ms := by
        cases left with
        | text _ absurd => cases absurd
        | object => exact ⟨_, rfl⟩
      exact joinMembers_shows (members ms rfl) left right
  refine ⟨item, fun a b left right => ?_⟩
  rcases join_cases a b with same | ⟨old, new, rfl, rfl, same⟩
  · rw [same]
    exact item a b left right
  · rw [same]
    cases left with
    | text _ absurd => cases absurd
    | list olds =>
      cases right with
      | text absurd => cases absurd
      | list news => exact .list (joinItems_shows (items _ rfl) olds news)

mutual

theorem joinable : ∀ written : Datum, written.JoinableItem ∧ written.Joinable
  | .object members => joinable_of
      (fun _ same => by cases same; exact joinableMembers members) (fun _ absurd => nomatch absurd)
  | .list items => joinable_of
      (fun _ absurd => nomatch absurd) (fun _ same => by cases same; exact joinableItems items)
  | .null | .bool _ | .number _ | .string _ | .enum _ | .binary _ =>
    joinable_of (fun _ absurd => nomatch absurd) (fun _ absurd => nomatch absurd)

theorem joinableItems : ∀ items : List Datum, ∀ d ∈ items, d.JoinableItem
  | [] => fun _ absurd => nomatch absurd
  | d :: rest => List.forall_mem_cons.mpr ⟨(joinable d).1, joinableItems rest⟩

theorem joinableMembers : ∀ members : List (String × Datum), ∀ m ∈ members, m.2.Joinable
  | [] => fun _ absurd => nomatch absurd
  | (_, d) :: rest => List.forall_mem_cons.mpr ⟨(joinable d).2, joinableMembers rest⟩

end

theorem Shows.join {written a b : Datum} (left : written.Shows a) (right : written.Shows b) :
    written.Shows (join a b) := (joinable written).2 a b left right

-- An object of results has a member for every key, and what holds of all results for a key holds of
-- what is shown under it.
theorem ofResults_members {P : String → Datum → Prop}
    (joins : ∀ key a b, P key a → P key b → P key (Datum.join a b))
    {results : List (String × Datum)} (each : ∀ m ∈ results, P m.1 m.2) :
    ∃ members, ofResults results = .object members ∧ (members.map Prod.fst).Nodup ∧
      (∀ m ∈ members, m.1 ∈ results.map Prod.fst) ∧
      ∀ m ∈ results, ∃ d, Members.get? m.1 members = some d ∧ P m.1 d := by
  have distinct : ((addMembers [] results).map Prod.fst).Nodup := nodup_addMembers (by simp)
  refine ⟨addMembers [] results, rfl, distinct, fun m member => ?_, fun m member => ?_⟩
  · have found := Members.get?_of_mem distinct member
    rw [get?_addMembers] at found
    cases values : Members.valuesOf m.1 results with
    | nil =>
      rw [values] at found
      cases found
    | cons v rest =>
      have given : (m.1, v) ∈ results := Members.mem_valuesOf.mp (values ▸ List.mem_cons_self)
      exact List.mem_map.mpr ⟨_, given, rfl⟩
  · have given : m.2 ∈ Members.valuesOf m.1 results := Members.mem_valuesOf.mpr member
    have holds (v : Datum) (inside : v ∈ Members.valuesOf m.1 results) : P m.1 v :=
      each (m.1, v) (Members.mem_valuesOf.mp inside)
    rw [get?_addMembers, show Members.get? m.1 ([] : List (String × Datum)) = none from rfl]
    generalize Members.valuesOf m.1 results = values at given holds ⊢
    obtain ⟨d, found⟩ : ∃ d, together none values = some d := by
      cases values with
      | nil => cases given
      | cons v rest => exact ⟨_, together_some v rest⟩
    exact ⟨d, found, together_closed (joins m.1) (by simp) holds d found⟩

end Datum

end RowGraph
