import Mathlib.Data.List.Perm.Basic
import RowGraph.Proofs.Schema.Wrapping
/-!
What a list of definitions is accepted for. Each definition has to be sound by itself, there is at
most one definition of the roots, and no two types have one name. Main statement: a text whose
definitions come in another order, with other definitions of directives among them, is accepted for
the same reasons, and its document has the same roots and the same types.
-/

namespace RowGraph

namespace Definition

-- The roots that a definition names.
def named : Definition → List (String × Option String)
  | .roots d => d.query.toList.map fun query => (query, d.mutation)
  | .type _ | .directive _ => []

def types : Definition → List TypeDef
  | .type d => [d]
  | .roots _ | .directive _ => []

def isDirective : Definition → Bool
  | .directive _ => true
  | .roots _ | .type _ => false

-- What a definition needs to be accepted, whatever comes before it.
def Sound : Definition → Prop
  | .roots d => d.isExtension = false ∧ d.subscription = none ∧ d.query.isSome = true
  | .type d => d.isExtension = false ∧ builtinScalars.contains d.name = false
  | .directive _ => True

-- The same definitions in some order, but for those of directives.
def Reordered (defs defs' : List Definition) : Prop :=
  (defs.filter fun d => !d.isDirective).Perm (defs'.filter fun d => !d.isDirective)

theorem Reordered.symm {defs defs' : List Definition} (same : Reordered defs defs') :
    Reordered defs' defs := List.Perm.symm same

theorem flatMap_undirected {f : Definition → List α} (none : ∀ name, f (.directive name) = [])
    (defs : List Definition) : (defs.filter fun d => !d.isDirective).flatMap f = defs.flatMap f := by
  induction defs with
  | nil => rfl
  | cons d rest ih =>
    cases d with
    | directive name => simpa [isDirective, none] using ih
    | roots d => simpa [isDirective] using ih
    | type d => simpa [isDirective] using ih

theorem Reordered.flatMap {defs defs' : List Definition} (same : Reordered defs defs')
    {f : Definition → List α} (none : ∀ name, f (.directive name) = []) :
    (defs.flatMap f).Perm (defs'.flatMap f) := by
  rw [← flatMap_undirected none defs, ← flatMap_undirected none defs']
  exact List.Perm.flatMap_right f same

theorem Reordered.sound {defs defs' : List Definition} (same : Reordered defs defs')
    (sound : ∀ d ∈ defs, d.Sound) : ∀ d ∈ defs', d.Sound := by
  intro d member
  cases directive : d.isDirective with
  | true => cases d with
    | directive => trivial
    | roots | type => cases directive
  | false =>
    have kept := same.mem_iff.mpr (List.mem_filter.mpr ⟨member, by rw [directive]; rfl⟩)
    exact sound d (List.mem_of_mem_filter kept)

end Definition

namespace Document

-- What has been accepted after a list of definitions, as a whole.
structure Accepted.Takes (a : Accepted) (defs : List Definition) (b : Accepted) : Prop where
  sound : ∀ d ∈ defs, d.Sound
  roots : b.roots.toList = a.roots.toList ++ defs.flatMap Definition.named
  types : b.types = a.types ++ defs.flatMap Definition.types
  nodup : (b.types.map TypeDef.name).Nodup

theorem toList_inj {o o' : Option α} (same : o.toList = o'.toList) : o = o' := by
  cases o <;> cases o' <;> simp_all

theorem Accepted.add_roots {a b : Accepted} {d : RootsDef} :
    a.add (.roots d) = .ok b ↔ (Definition.roots d).Sound ∧ a.roots = none ∧ b.types = a.types ∧
      ∃ query, d.query = some query ∧ b.roots = some (query, d.mutation) := by
  constructor
  · intro accepted
    unfold add at accepted
    simp only at accepted
    split at accepted
    · cases accepted
    · rename_i extension
      split at accepted
      · cases accepted
      · rename_i first
        split at accepted
        · cases accepted
        · rename_i subscription
          split at accepted
          · rename_i query named
            obtain rfl := Except.ok.inj accepted
            refine ⟨⟨by simpa using extension, by simpa using subscription, ?_⟩, by simpa using first,
              rfl, query, named, rfl⟩
            rw [named]
            rfl
          · cases accepted
  · rintro ⟨⟨extension, subscription, _⟩, first, types, query, named, roots⟩
    obtain ⟨roots', types'⟩ := b
    obtain rfl : types' = a.types := types
    obtain rfl : roots' = some (query, d.mutation) := roots
    simp [add, extension, subscription, first, named]

theorem Accepted.add_type {a b : Accepted} {d : TypeDef} :
    a.add (.type d) = .ok b ↔ (Definition.type d).Sound ∧ d.name ∉ a.types.map TypeDef.name ∧
      b.roots = a.roots ∧ b.types = a.types ++ [d] := by
  constructor
  · intro accepted
    unfold add at accepted
    simp only at accepted
    split at accepted
    · cases accepted
    · rename_i extension
      split at accepted
      · cases accepted
      · rename_i own
        split at accepted
        · cases accepted
        · rename_i fresh
          obtain rfl := Except.ok.inj accepted
          refine ⟨⟨by simpa using extension, by simpa using own⟩, fun old => ?_, rfl, rfl⟩
          obtain ⟨t, known, same⟩ := List.mem_map.mp old
          exact fresh (List.any_eq_true.mpr ⟨t, known, decide_eq_true same⟩)
  · rintro ⟨⟨extension, own⟩, fresh, roots, types⟩
    have new : (a.types.any fun t => t.name = d.name) = false := by
      rw [List.any_eq_false]
      exact fun t known same => fresh (List.mem_map.mpr ⟨t, known, of_decide_eq_true same⟩)
    obtain ⟨roots', types'⟩ := b
    obtain rfl : roots' = a.roots := roots
    obtain rfl : types' = a.types ++ [d] := types
    simp only [add, extension, own, new, Bool.false_eq_true, if_false]

theorem Accepted.add_takes {a b : Accepted} (nodup : (a.types.map TypeDef.name).Nodup)
    {d : Definition} : a.add d = .ok b ↔ a.Takes [d] b := by
  cases d with
  | roots d =>
    rw [add_roots]
    constructor
    · rintro ⟨sound, none, types, query, named, roots⟩
      refine ⟨by simpa using sound, ?_, by simpa [Definition.types] using types, types ▸ nodup⟩
      simp [none, roots, named, Definition.named]
    · rintro ⟨sound, roots, types, _⟩
      have sound : (Definition.roots d).Sound := by simpa using sound
      obtain ⟨query, named⟩ := Option.isSome_iff_exists.mp sound.2.2
      simp only [List.flatMap_cons, List.flatMap_nil, List.append_nil, Definition.named, named,
        Option.toList_some, List.map_singleton, Definition.types] at roots types
      cases before : a.roots with
      | some _ => cases after : b.roots <;> simp [before, after] at roots
      | none =>
        rw [before] at roots
        exact ⟨sound, rfl, types, query, named, toList_inj roots⟩
  | type d =>
    rw [add_type]
    constructor
    · rintro ⟨sound, fresh, roots, types⟩
      refine ⟨by simpa using sound, by simp [roots, Definition.named],
        by simpa [Definition.types] using types, ?_⟩
      rw [types, List.map_append, List.map_singleton, List.nodup_append]
      refine ⟨nodup, by simp, fun old known new only same => ?_⟩
      exact fresh (List.mem_singleton.mp only ▸ same ▸ known)
    · rintro ⟨sound, roots, types, nodup⟩
      simp only [List.flatMap_cons, List.flatMap_nil, List.append_nil, Definition.named,
        Definition.types] at roots types
      refine ⟨by simpa using sound, ?_, toList_inj roots, types⟩
      rw [types, List.map_append, List.map_singleton, List.nodup_append] at nodup
      exact fun known => nodup.2.2 _ known _ (List.mem_singleton_self _) rfl
  | directive name =>
    constructor
    · intro accepted
      obtain rfl := Except.ok.inj accepted
      exact ⟨by simp [Definition.Sound], by simp [Definition.named], by simp [Definition.types], nodup⟩
    · rintro ⟨_, roots, types, _⟩
      simp only [List.flatMap_cons, List.flatMap_nil, List.append_nil, Definition.named,
        Definition.types] at roots types
      obtain ⟨roots', types'⟩ := b
      obtain rfl := toList_inj roots
      obtain rfl : types' = a.types := types
      rfl

theorem Accepted.Takes.trans {a b c : Accepted} {defs defs' : List Definition}
    (first : a.Takes defs b) (later : b.Takes defs' c) : a.Takes (defs ++ defs') c where
  sound d member := by
    rcases List.mem_append.mp member with before | after
    · exact first.sound d before
    · exact later.sound d after
  roots := by rw [later.roots, first.roots, List.flatMap_append, List.append_assoc]
  types := by rw [later.types, first.types, List.flatMap_append, List.append_assoc]
  nodup := later.nodup

-- What was taken before the last definitions.
theorem Accepted.Takes.split {a c : Accepted} {defs defs' : List Definition}
    (takes : a.Takes (defs ++ defs') c) : ∃ b, a.Takes defs b ∧ b.Takes defs' c := by
  have roots := takes.roots
  have types := takes.types
  rw [List.flatMap_append, ← List.append_assoc] at roots types
  have short : (a.roots.toList ++ defs.flatMap Definition.named).length ≤ 1 := by
    have whole := congrArg List.length roots
    have bound : c.roots.toList.length ≤ 1 := by cases c.roots <;> simp
    rw [List.length_append] at whole
    omega
  obtain ⟨o, single⟩ : ∃ o : Option (String × Option String),
      o.toList = a.roots.toList ++ defs.flatMap Definition.named := by
    generalize a.roots.toList ++ defs.flatMap Definition.named = given at short
    match given with
    | [] => exact ⟨none, rfl⟩
    | [r] => exact ⟨some r, rfl⟩
    | _ :: _ :: _ => simp at short
  have below : ((a.types ++ defs.flatMap Definition.types).map TypeDef.name).Sublist
      (c.types.map TypeDef.name) := by
    rw [types]
    exact (List.sublist_append_left _ _).map _
  exact ⟨⟨o, a.types ++ defs.flatMap Definition.types⟩,
    ⟨fun d member => takes.sound d (List.mem_append_left _ member), single, rfl,
      takes.nodup.sublist below⟩,
    ⟨fun d member => takes.sound d (List.mem_append_right _ member),
      by rw [roots, single], types, takes.nodup⟩⟩

theorem Accepted.addAll_takes {a b : Accepted} (nodup : (a.types.map TypeDef.name).Nodup)
    {defs : List Definition} : a.addAll defs = .ok b ↔ a.Takes defs b := by
  induction defs generalizing a with
  | nil =>
    constructor
    · intro accepted
      obtain rfl := Except.ok.inj accepted
      exact ⟨by simp, by simp, by simp, nodup⟩
    · rintro ⟨_, roots, types, _⟩
      obtain ⟨roots', types'⟩ := b
      obtain rfl := toList_inj (roots.trans (List.append_nil _))
      obtain rfl : types' = a.types := types.trans (List.append_nil _)
      rfl
  | cons d rest ih =>
    constructor
    · intro accepted
      obtain ⟨next, added, accepted⟩ := bind_ok accepted
      have first := (add_takes nodup).mp added
      exact first.trans ((ih first.nodup).mp accepted)
    · intro takes
      have takes : a.Takes ([d] ++ rest) b := takes
      obtain ⟨next, first, later⟩ := takes.split
      unfold addAll
      rw [(add_takes nodup).mpr first]
      exact (ih first.nodup).mpr later

-- Another order of the definitions is taken just as well.
theorem Accepted.Takes.reordered {b : Accepted} {defs defs' : List Definition}
    (same : Definition.Reordered defs defs') (takes : Takes {} defs b) :
    ∃ b', Takes {} defs' b' ∧ b'.roots = b.roots ∧ b.types.Perm b'.types := by
  have named : (defs.flatMap Definition.named).Perm (defs'.flatMap Definition.named) :=
    same.flatMap fun _ => rfl
  have types : (defs.flatMap Definition.types).Perm (defs'.flatMap Definition.types) :=
    same.flatMap fun _ => rfl
  have roots : b.roots.toList = defs.flatMap Definition.named := takes.roots
  have kept : b.roots.toList = defs'.flatMap Definition.named := by
    rw [← roots] at named
    cases root : b.roots with
    | none =>
      rw [root, Option.toList_none] at named
      exact (List.nil_perm.mp named).symm
    | some r =>
      rw [root, Option.toList_some] at named
      exact (List.perm_singleton.mp named.symm).symm
  have perm : b.types.Perm (defs'.flatMap Definition.types) := by
    rw [show b.types = defs.flatMap Definition.types from takes.types]
    exact types
  exact ⟨⟨b.roots, defs'.flatMap Definition.types⟩,
    ⟨same.sound takes.sound, kept, rfl, (perm.map _).nodup_iff.mp takes.nodup⟩, rfl, perm⟩

end Document

end RowGraph
