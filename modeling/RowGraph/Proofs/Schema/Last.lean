import Mathlib.Data.List.Forall2
import Mathlib.Data.List.Induction
import RowGraph.Schema.Catalog
import RowGraph.Schema.FieldMap
/-!
Of several entries for one name the last counts: in a map that is built from a list, and among the
fields of a type once they have been made distinct.
-/

namespace RowGraph

theorem mem_of_forall₂ {R : α → β → Prop} {as : List α} {bs : List β} (all : List.Forall₂ R as bs)
    {a : α} (member : a ∈ as) : ∃ b ∈ bs, R a b := by
  induction all with
  | nil => cases member
  | cons related _ ih =>
    rcases List.mem_cons.mp member with rfl | later
    · exact ⟨_, List.mem_cons_self, related⟩
    · obtain ⟨b, there, related⟩ := ih later
      exact ⟨b, List.mem_cons_of_mem _ there, related⟩

theorem map_of_forall₂ {R : α → β → Prop} {as : List α} {bs : List β} (all : List.Forall₂ R as bs)
    {f : α → γ} {g : β → γ} (same : ∀ a b, R a b → f a = g b) : as.map f = bs.map g := by
  induction all with
  | nil => rfl
  | cons related _ ih => rw [List.map_cons, List.map_cons, same _ _ related, ih]

def last? (p : α → Bool) (as : List α) : Option α := as.reverse.find? p

theorem last?_append (p : α → Bool) (as bs : List α) :
    last? p (as ++ bs) = (last? p bs).or (last? p as) := by
  simp [last?, List.find?_append]

theorem last?_snoc (p : α → Bool) (as : List α) (a : α) :
    last? p (as ++ [a]) = if p a then some a else last? p as := by
  cases holds : p a <;> simp [last?, holds]

theorem last?_some {p : α → Bool} {as : List α} {a : α} (found : last? p as = some a) :
    a ∈ as ∧ p a = true :=
  ⟨by simpa using List.mem_of_find?_eq_some found, List.find?_some found⟩

theorem last?_map (f : α → β) (p : β → Bool) (as : List α) :
    last? p (as.map f) = (last? (fun a => p (f a)) as).map f := by
  unfold last?
  rw [← List.map_reverse, List.find?_map]
  rfl

theorem last?_forall₂ {R : α → β → Prop} {p : α → Bool} {q : β → Bool} {as : List α} {bs : List β}
    (all : List.Forall₂ R as bs) (agree : ∀ a b, R a b → p a = q b) {b : β}
    (found : last? q bs = some b) : ∃ a, last? p as = some a ∧ R a b := by
  have reversed : List.Forall₂ R as.reverse bs.reverse := List.rel_reverse all
  unfold last? at found ⊢
  generalize as.reverse = xs at reversed ⊢
  generalize bs.reverse = ys at reversed found
  induction reversed with
  | nil => cases found
  | cons related _ ih =>
    rw [List.find?_cons] at found ⊢
    rw [agree _ _ related]
    split at found
    · cases found
      exact ⟨_, rfl, related⟩
    · exact ih found

namespace FieldMap

theorem get?_insert (m : FieldMap α) (type field : String) (a : α) (type' field' : String) :
    (m.insert type field a).get? type' field' =
      if type' = type ∧ field' = field then some a else m.get? type' field' := by
  unfold get? insert
  rw [OrderedMap.get?_insert]
  by_cases sameType : type' = type
  · subst sameType
    rw [if_pos Std.ReflCmp.compare_self, Option.bind_some, OrderedMap.get?_insert]
    by_cases sameField : field' = field
    · subst sameField
      simp [Std.ReflCmp.compare_self]
    · have other : compare field' field ≠ .eq := fun h => sameField (Std.LawfulEqCmp.eq_of_compare h)
      simp only [other, sameField, and_false, if_false, fields]
      cases m.types.get? type' <;> rfl
  · have other : compare type' type ≠ .eq := fun h => sameType (Std.LawfulEqCmp.eq_of_compare h)
    simp [other, sameType]

theorem get?_ofList (entries : List (String × String × α)) (type field : String) :
    (ofList entries).get? type field =
      (last? (fun e => e.1 = type && e.2.1 = field) entries).map (·.2.2) := by
  unfold ofList
  induction entries using List.reverseRecOn with
  | nil => rfl
  | append_singleton entries e ih =>
    rw [List.foldl_append, List.foldl_cons, List.foldl_nil, get?_insert, ih, last?_snoc]
    by_cases same : e.1 = type ∧ e.2.1 = field
    · simp [same.1, same.2]
    · rw [if_neg fun h => same ⟨h.1.symm, h.2.symm⟩, if_neg (by simpa using same)]

end FieldMap

theorem find?_mergeNamed (nameOf : α → String) (done : List α) (a : α) (name : String) :
    (mergeNamed nameOf done a).find? (fun b => nameOf b = name) =
      if nameOf a = name then some a else done.find? fun b => nameOf b = name := by
  unfold mergeNamed
  split
  · rename_i known
    -- Replacing keeps the names, so it commutes with the search.
    have names : ((fun b => decide (nameOf b = name)) ∘
        fun b => if nameOf b = nameOf a then a else b) = fun b => decide (nameOf b = name) := by
      funext b
      by_cases same : nameOf b = nameOf a <;> simp [same]
    rw [List.find?_map, names]
    by_cases named : nameOf a = name
    · obtain ⟨b, found⟩ : ∃ b, done.find? (fun b => nameOf b = name) = some b := by
        rw [← Option.isSome_iff_exists, List.find?_isSome]
        simpa [named] using known
      have same : nameOf b = name := by simpa using List.find?_some found
      simp [found, same, named]
    · rw [if_neg named]
      cases found : done.find? fun b => nameOf b = name with
      | none => rfl
      | some b =>
        have other : nameOf b = name := by simpa using List.find?_some found
        simp [other, Ne.symm named]
  · rename_i fresh
    rw [List.find?_append]
    by_cases named : nameOf a = name
    · have absent : done.find? (fun b => nameOf b = name) = none := by
        simpa [named] using fresh
      simp [absent, named]
    · simp [named]

theorem find?_distinctNamed (nameOf : α → String) (as : List α) (name : String) :
    (distinctNamed nameOf as).find? (fun a => nameOf a = name) =
      last? (fun a => nameOf a = name) as := by
  unfold distinctNamed
  induction as using List.reverseRecOn with
  | nil => rfl
  | append_singleton as a ih =>
    rw [List.foldl_append, List.foldl_cons, List.foldl_nil, find?_mergeNamed, ih, last?_snoc]
    simp only [decide_eq_true_eq]

namespace TypeDef

-- Of several declarations of a field the last is the one that requests meet.
theorem field?_distinct {t : TypeDef} {fields : List FieldDef} (object : t.body = .object fields)
    (name : String) :
    t.distinct.field? name =
      (last? (fun f => f.name = name) fields).map FieldDef.distinctArguments := by
  unfold field? objectFields? distinct
  simp only [object, Option.getD_some]
  rw [List.find?_map, ← find?_distinctNamed]
  rfl

end TypeDef

end RowGraph
