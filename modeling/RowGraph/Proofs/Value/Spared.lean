import RowGraph.Proofs.Response.Walk
/-!
Data that agree but for what stands at some positions and inside of them. Merging keeps the
agreement: of what is merged at a position that is spared, both sides have the same. Main statements:
results that agree make objects that agree, and walking along a path that meets none of the
positions leads to the same on both sides.
-/

namespace RowGraph

namespace Datum

-- A value without anything inside.
def Plain : Datum → Prop
  | .object _ | .list _ => False
  | _ => True

-- Such values are not joined with anything.
theorem join_plain {b : Datum} (plain : b.Plain) (a : Datum) : a.join b = a ∧ a.joinItem b = a := by
  cases b <;> first | exact plain.elim | simp [join, joinItem]

theorem plain_join {a : Datum} (plain : a.Plain) (b : Datum) : a.join b = a ∧ a.joinItem b = a := by
  cases b with
  | list ds => cases a <;> first | exact plain.elim | simp [join, joinItem]
  | object ms => cases a <;> first | exact plain.elim | simp [join, joinItem]
  | null | bool _ | number _ | string _ | enum _ | binary _ => exact join_plain (by trivial) a

theorem join_object (old ms : List (String × Datum)) :
    (object old).join (.object ms) = .object (addMembers old ms) ∧
      (object old).joinItem (.object ms) = .object (addMembers old ms) := by
  rw [join, joinItem]
  exact ⟨rfl, rfl⟩

theorem list_join_object (old : List Datum) (ms : List (String × Datum)) :
    (list old).join (.object ms) = .list old ∧ (list old).joinItem (.object ms) = .list old := by
  rw [join, joinItem] <;> simp

theorem join_list (old ds : List Datum) :
    (list old).join (.list ds) = .list (joinItems old ds) := by
  rw [join]

theorem object_join_list (old : List (String × Datum)) (ds : List Datum) :
    (object old).join (.list ds) = .object old := by
  rw [join]
  simp

theorem joinItem_list (a : Datum) (ds : List Datum) : a.joinItem (.list ds) = a := by
  rw [joinItem]
  simp

mutual

-- Nothing is said of positions that have been hit.
inductive AgreesOff (hit : Path → Prop) : Path → Datum → Datum → Prop where
  | hit {p : Path} {d d' : Datum} : hit p → AgreesOff hit p d d'
  | plain {p : Path} {d : Datum} : d.Plain → AgreesOff hit p d d
  | list {p : Path} {ds ds' : List Datum} : ItemsOff hit p 0 ds ds' →
      AgreesOff hit p (.list ds) (.list ds')
  | object {p : Path} {ms ms' : List (String × Datum)} : MembersOff hit p ms ms' →
      AgreesOff hit p (.object ms) (.object ms')

inductive ItemsOff (hit : Path → Prop) : Path → Nat → List Datum → List Datum → Prop where
  | nil {p : Path} {i : Nat} : ItemsOff hit p i [] []
  | cons {p : Path} {i : Nat} {d d' : Datum} {ds ds' : List Datum} :
      AgreesOff hit (p ++ [.index i]) d d' → ItemsOff hit p (i + 1) ds ds' →
      ItemsOff hit p i (d :: ds) (d' :: ds')

inductive MembersOff (hit : Path → Prop) :
    Path → List (String × Datum) → List (String × Datum) → Prop where
  | nil {p : Path} : MembersOff hit p [] []
  | cons {p : Path} {name : String} {d d' : Datum} {ms ms' : List (String × Datum)} :
      AgreesOff hit (p ++ [.field name]) d d' → MembersOff hit p ms ms' →
      MembersOff hit p ((name, d) :: ms) ((name, d') :: ms')

end

section

variable {hit : Path → Prop}

mutual

theorem AgreesOff.refl (p : Path) : ∀ d : Datum, AgreesOff hit p d d
  | .null | .bool _ | .number _ | .string _ | .enum _ | .binary _ => .plain trivial
  | .list ds => .list (ItemsOff.refl p 0 ds)
  | .object ms => .object (MembersOff.refl p ms)

theorem ItemsOff.refl (p : Path) (i : Nat) : ∀ ds : List Datum, ItemsOff hit p i ds ds
  | [] => .nil
  | d :: rest => .cons (AgreesOff.refl (p ++ [.index i]) d) (ItemsOff.refl p (i + 1) rest)

theorem MembersOff.refl (p : Path) : ∀ ms : List (String × Datum), MembersOff hit p ms ms
  | [] => .nil
  | (name, d) :: rest =>
    .cons (AgreesOff.refl (p ++ [.field name]) d) (MembersOff.refl p rest)

end

mutual

theorem AgreesOff.mono {more : Path → Prop} (mono : ∀ q, hit q → more q) {p : Path} {d d' : Datum} :
    AgreesOff hit p d d' → AgreesOff more p d d'
  | .hit here => .hit (mono p here)
  | .plain same => .plain same
  | .list items => .list (items.mono mono)
  | .object members => .object (members.mono mono)

theorem ItemsOff.mono {more : Path → Prop} (mono : ∀ q, hit q → more q) {p : Path} {i : Nat}
    {ds ds' : List Datum} : ItemsOff hit p i ds ds' → ItemsOff more p i ds ds'
  | .nil => .nil
  | .cons first rest => .cons (first.mono mono) (rest.mono mono)

theorem MembersOff.mono {more : Path → Prop} (mono : ∀ q, hit q → more q) {p : Path}
    {ms ms' : List (String × Datum)} : MembersOff hit p ms ms' → MembersOff more p ms ms'
  | .nil => .nil
  | .cons first rest => .cons (first.mono mono) (rest.mono mono)

end

namespace MembersOff

variable {p : Path} {ms ms' : List (String × Datum)}

theorem append {more more' : List (String × Datum)} (first : MembersOff hit p ms ms')
    (second : MembersOff hit p more more') : MembersOff hit p (ms ++ more) (ms' ++ more') := by
  induction ms generalizing ms' with
  | nil =>
    cases first
    exact second
  | cons m rest ih =>
    cases first with
    | cons here later => exact .cons here (ih later)

theorem get? (members : MembersOff hit p ms ms') (name : String) :
    Option.Rel (AgreesOff hit (p ++ [.field name])) (Members.get? name ms)
      (Members.get? name ms') := by
  induction ms generalizing ms' with
  | nil =>
    cases members
    exact .none
  | cons m rest ih =>
    cases members with
    | cons here later =>
      rw [Members.get?_cons, Members.get?_cons]
      dsimp only
      split
      · rename_i same
        exact .some (same ▸ here)
      · exact ih later

theorem set {name : String} {d d' : Datum} (value : AgreesOff hit (p ++ [.field name]) d d')
    (members : MembersOff hit p ms ms') :
    MembersOff hit p (Members.set name d ms) (Members.set name d' ms') := by
  induction ms generalizing ms' with
  | nil =>
    cases members
    exact .cons value .nil
  | cons m rest ih =>
    cases members with
    | @cons _ other _ _ _ _ here later =>
      unfold Members.set
      split
      · rename_i same
        exact .cons (same ▸ value) later
      · exact .cons here (ih later)

end MembersOff

theorem ItemsOff.get? {p : Path} {i : Nat} {ds ds' : List Datum} (items : ItemsOff hit p i ds ds')
    (k : Nat) : Option.Rel (AgreesOff hit (p ++ [.index (i + k)])) ds[k]? ds'[k]? := by
  induction ds generalizing ds' i k with
  | nil =>
    cases items
    exact .none
  | cons d rest ih =>
    cases items with
    | cons here later =>
      cases k with
      | zero => exact .some here
      | succ k =>
        have shift : i + 1 + k = i + (k + 1) := by omega
        exact shift ▸ ih later k

-- What is joined agrees, since the second results agree position by position.
mutual

theorem AgreesOff.join {p : Path} {a a' : Datum} (first : AgreesOff hit p a a') {b b' : Datum} :
    AgreesOff hit p b b' → AgreesOff hit p (a.join b) (a'.join b')
  | .hit here => .hit here
  | .plain same => by
    rw [(join_plain same a).1, (join_plain same a').1]
    exact first
  | .list items => by
    cases first with
    | hit here => exact .hit here
    | plain same =>
      rw [(plain_join same _).1, (plain_join same _).1]
      exact .plain same
    | list old =>
      rw [join_list, join_list]
      exact .list (items.join old)
    | object old =>
      rw [object_join_list, object_join_list]
      exact .object old
  | .object members => by
    cases first with
    | hit here => exact .hit here
    | plain same =>
      rw [(plain_join same _).1, (plain_join same _).1]
      exact .plain same
    | list old =>
      rw [(list_join_object ..).1, (list_join_object ..).1]
      exact .list old
    | object old =>
      rw [(join_object ..).1, (join_object ..).1]
      exact .object (members.add old)
termination_by structural second => second

theorem AgreesOff.joinItem {p : Path} {a a' : Datum} (first : AgreesOff hit p a a') {b b' : Datum} :
    AgreesOff hit p b b' → AgreesOff hit p (a.joinItem b) (a'.joinItem b')
  | .hit here => .hit here
  | .plain same => by
    rw [(join_plain same a).2, (join_plain same a').2]
    exact first
  | .list _ => by
    rw [joinItem_list, joinItem_list]
    exact first
  | .object members => by
    cases first with
    | hit here => exact .hit here
    | plain same =>
      rw [(plain_join same _).2, (plain_join same _).2]
      exact .plain same
    | list old =>
      rw [(list_join_object ..).2, (list_join_object ..).2]
      exact .list old
    | object old =>
      rw [(join_object ..).2, (join_object ..).2]
      exact .object (members.add old)
termination_by structural second => second

theorem ItemsOff.join {p : Path} {i : Nat} {ds ds' old old' : List Datum} :
    ItemsOff hit p i ds ds' → ItemsOff hit p i old old' →
    ItemsOff hit p i (joinItems old ds) (joinItems old' ds')
  | .nil, .nil => by
    rw [joinItems]
    exact .nil
  | .nil, .cons here later => by
    rw [joinItems, joinItems] <;> first | exact .cons here later | simp
  | .cons _ _, .nil => by
    rw [joinItems, joinItems]
    exact .nil
  | .cons here later, .cons first rest => by
    rw [joinItems, joinItems]
    exact .cons (first.joinItem here) (later.join rest)
termination_by structural second => second

theorem MembersOff.add {p : Path} {ms ms' old old' : List (String × Datum)} :
    MembersOff hit p ms ms' → MembersOff hit p old old' →
    MembersOff hit p (addMembers old ms) (addMembers old' ms')
  | .nil, stand => by
    rw [addMembers, addMembers]
    exact stand
  | @MembersOff.cons _ _ name d d' _ _ here later, stand => by
    rw [addMembers_cons, addMembers_cons]
    have joined : AgreesOff hit (p ++ [.field name])
        ((Members.get? name old).elim d (Datum.join · d))
        ((Members.get? name old').elim d' (Datum.join · d')) := by
      have found := stand.get? name
      generalize Members.get? name old = a at found
      generalize Members.get? name old' = a' at found
      cases found with
      | none => exact here
      | some first => exact first.join here
    exact later.add (stand.set joined)
termination_by structural second => second

end

theorem AgreesOff.ofResults {p : Path} {results results' : List (String × Datum)}
    (members : MembersOff hit p results results') :
    AgreesOff hit p (Datum.ofResults results) (Datum.ofResults results') :=
  .object (members.add .nil)

-- A value without what is inside of it.
def front : Datum → Datum
  | .list ds => .list (ds.map fun _ => .null)
  | .object ms => .object (ms.map fun m => (m.1, .null))
  | d => d

theorem ItemsOff.front {p : Path} {i : Nat} {ds ds' : List Datum} (items : ItemsOff hit p i ds ds') :
    ds'.map (fun _ => null) = ds.map fun _ => null := by
  induction ds generalizing ds' i with
  | nil =>
    cases items
    rfl
  | cons d rest ih =>
    cases items with
    | cons _ later => exact congrArg (_ :: ·) (ih later)

theorem MembersOff.front {p : Path} {ms ms' : List (String × Datum)}
    (members : MembersOff hit p ms ms') :
    ms'.map (fun m => (m.1, null)) = ms.map fun m => (m.1, null) := by
  induction ms generalizing ms' with
  | nil =>
    cases members
    rfl
  | cons m rest ih =>
    cases members with
    | cons _ later => exact congrArg (_ :: ·) (ih later)

-- Off the positions that have been hit, paths lead to the same.
theorem AgreesOff.at? {p : Path} {d d' : Datum} (agrees : AgreesOff hit p d d') (q : Path)
    (free : ∀ u, u <+: q → ¬ hit (p ++ u)) :
    (d'.at? q).map Datum.front = (d.at? q).map Datum.front := by
  induction q generalizing p d d' with
  | nil =>
    cases agrees with
    | hit here => exact absurd ((List.append_nil p).symm ▸ here) (free [] List.nil_prefix)
    | plain => rfl
    | list items => exact congrArg (fun ds => some (Datum.list ds)) items.front
    | object members => exact congrArg (fun ms => some (Datum.object ms)) members.front
  | cons s rest ih =>
    have inner (u : Path) (before : u <+: rest) : ¬ hit (p ++ [s] ++ u) := by
      rw [List.append_assoc]
      exact free (s :: u) (List.cons_prefix_cons.mpr ⟨rfl, before⟩)
    have deeper {a a' : Option Datum} (found : Option.Rel (AgreesOff hit (p ++ [s])) a a') :
        (a'.bind (Datum.at? rest)).map Datum.front = (a.bind (Datum.at? rest)).map Datum.front := by
      cases found with
      | none => rfl
      | some same => exact ih same inner
    cases agrees with
    | hit here => exact absurd ((List.append_nil p).symm ▸ here) (free [] List.nil_prefix)
    | plain => rfl
    | list items =>
      cases s with
      | field key => rfl
      | index i =>
        have found := items.get? i
        rw [Nat.zero_add] at found
        exact deeper found
    | object members =>
      cases s with
      | field key => exact deeper (members.get? key)
      | index i => rfl

end

end Datum

end RowGraph
