import RowGraph.Proofs.Mutation.Standing
import RowGraph.Proofs.Schema.Reordering
/-!
Values whose objects have their members in another order, at any depth. Such values are told apart
by no lookup: a member has the same value up to order, ids and stamps are the same. Main statement:
both are stored as one and the same column, or are turned down alike.
-/

namespace RowGraph

namespace Members

variable {α β : Type}

theorem get?_perm {members members' : List (String × α)} (same : members.Perm members')
    (distinct : (members.map Prod.fst).Nodup) (name : String) :
    get? name members' = get? name members := by
  unfold get?
  rw [find?_perm same distinct]

theorem get?_forall₂ {R : α → β → Prop} {as : List (String × α)} {bs : List (String × β)}
    (all : List.Forall₂ (fun a b => a.1 = b.1 ∧ R a.2 b.2) as bs) (name : String) :
    Option.Rel R (get? name as) (get? name bs) := by
  induction all with
  | nil => exact .none
  | @cons a b _ _ related _ ih =>
    rw [get?_cons, get?_cons, related.1]
    split
    · exact .some related.2
    · exact ih

end Members

theorem forall₂_trans {α β γ : Type} {R : α → β → Prop} {S : β → γ → Prop} {T : α → γ → Prop}
    (compose : ∀ a b c, R a b → S b c → T a c) {as : List α} {bs : List β} {cs : List γ}
    (first : List.Forall₂ R as bs) (second : List.Forall₂ S bs cs) : List.Forall₂ T as cs := by
  induction first generalizing cs with
  | nil =>
    cases second
    exact .nil
  | cons related _ ih =>
    cases second with
    | cons related' later => exact .cons (compose _ _ _ related related') (ih later)

-- A row is the same in whatever order its columns are given.
theorem Row.ofColumns_perm {columns columns' : List (String × Value)}
    (same : columns.Perm columns') (distinct : (columns.map Prod.fst).Nodup) :
    Row.ofColumns columns' = Row.ofColumns columns := by
  have distinct' := (same.map Prod.fst).nodup_iff.mp distinct
  have moved : (ofColumns columns').Perm (ofColumns columns) :=
    (Assoc.perm_ofList distinct').trans (same.symm.trans (Assoc.perm_ofList distinct).symm)
  exact (Assoc.sorted_ofList columns').eq_of_perm (Assoc.sorted_ofList columns) moved

namespace Datum

-- Objects with distinct members may have them in another order; the items of lists stay in place.
inductive Reordered : Datum → Datum → Prop where
  | same (d : Datum) : Reordered d d
  | list : List.Forall₂ Reordered items items' → Reordered (.list items) (.list items')
  | object {members others members' : List (String × Datum)} :
      (members.map Prod.fst).Nodup → members.map Prod.fst = others.map Prod.fst →
      List.Forall₂ Reordered (members.map Prod.snd) (others.map Prod.snd) →
      others.Perm members' → Reordered (.object members) (.object members')

-- What holds of values as soon as it holds of their parts.
theorem Reordered.induct {P : Datum → Datum → Prop} (same : ∀ d, P d d)
    (list : ∀ items items', List.Forall₂ P items items' → P (.list items) (.list items'))
    (object : ∀ members others members' : List (String × Datum), (members.map Prod.fst).Nodup →
      members.map Prod.fst = others.map Prod.fst →
      List.Forall₂ P (members.map Prod.snd) (others.map Prod.snd) → others.Perm members' →
      P (.object members) (.object members')) {d d' : Datum} (both : d.Reordered d') : P d d' :=
  @Reordered.rec (fun d d' _ => P d d') (fun items items' _ => List.Forall₂ P items items') same
    (fun _ each => list _ _ each) (fun distinct names _ order each => object _ _ _ distinct names each order)
    .nil (fun _ _ first rest => .cons first rest) d d' both

-- Members of the same names in the same order, with values up to order.
abbrev Named (members members' : List (String × Datum)) : Prop :=
  List.Forall₂ (fun m m' => m.1 = m'.1 ∧ m.2.Reordered m'.2) members members'

theorem Named.same (members : List (String × Datum)) : Named members members :=
  List.forall₂_same.mpr fun m _ => ⟨rfl, .same m.2⟩

theorem named_of_parts {R : Datum → Datum → Prop} {members members' : List (String × Datum)}
    (names : members.map Prod.fst = members'.map Prod.fst)
    (values : List.Forall₂ R (members.map Prod.snd) (members'.map Prod.snd)) :
    List.Forall₂ (fun m m' => m.1 = m'.1 ∧ R m.2 m'.2) members members' := by
  induction members generalizing members' with
  | nil =>
    obtain rfl := List.map_eq_nil_iff.mp names.symm
    exact .nil
  | cons m rest ih =>
    cases members' with
    | nil => cases names
    | cons m' rest' =>
      obtain ⟨name, names⟩ := List.cons.inj names
      cases values with
      | cons value values => exact .cons ⟨name, value⟩ (ih names values)

theorem Named.parts {members members' : List (String × Datum)} (named : Named members members') :
    members.map Prod.fst = members'.map Prod.fst ∧
      List.Forall₂ Reordered (members.map Prod.snd) (members'.map Prod.snd) :=
  ⟨map_of_forall₂ named fun _ _ both => both.1,
    List.forall₂_map_left_iff.mpr (List.forall₂_map_right_iff.mpr (named.imp fun _ _ both => both.2))⟩

theorem Named.distinct {members members' : List (String × Datum)} (named : Named members members')
    (distinct : (members.map Prod.fst).Nodup) : (members'.map Prod.fst).Nodup :=
  named.parts.1 ▸ distinct

namespace Reordered

variable {d d' d'' : Datum} {members members' : List (String × Datum)}

theorem of_named {others : List (String × Datum)} (distinct : (members.map Prod.fst).Nodup)
    (named : Named members others) (order : others.Perm members') :
    (Datum.object members).Reordered (.object members') :=
  .object distinct named.parts.1 named.parts.2 order

-- Two members the other way round.
theorem turned {name other : String} {e e' : Datum} (apart : name ≠ other) (first : d.Reordered d')
    (second : e.Reordered e') :
    (Datum.object [(name, d), (other, e)]).Reordered (.object [(other, e'), (name, d')]) := by
  have named : Named [(name, d), (other, e)] [(name, d'), (other, e')] :=
    .cons ⟨rfl, first⟩ (.cons ⟨rfl, second⟩ .nil)
  exact .of_named (by simpa using apart) named (.swap _ _ _)

-- The members are as they are, or the same ones up to order.
theorem object_cases (same : (Datum.object members).Reordered (.object members')) :
    members' = members ∨
      ∃ others, (members.map Prod.fst).Nodup ∧ Named members others ∧ others.Perm members' := by
  cases same with
  | same => exact .inl rfl
  | object distinct names values order =>
    exact .inr ⟨_, distinct, named_of_parts names values, order⟩

-- Both have the same members, whatever their order.
theorem get? (same : (Datum.object members).Reordered (.object members')) (name : String) :
    Option.Rel Reordered (Members.get? name members) (Members.get? name members') := by
  obtain rfl | ⟨others, distinct, named, order⟩ := same.object_cases
  · exact Members.get?_forall₂ (Named.same _) name
  · rw [Members.get?_perm order (named.distinct distinct)]
    exact Members.get?_forall₂ named name

theorem object_left (same : (Datum.object members).Reordered d') :
    ∃ members', d' = .object members' := by
  cases same with
  | same => exact ⟨_, rfl⟩
  | object => exact ⟨_, rfl⟩

theorem asObject?_none (same : d.Reordered d') (other : d.asObject? = none) :
    d'.asObject? = none := by
  cases same with
  | same => exact other
  | list => rfl
  | object => cases other

-- Leaving out members by their names leaves the rest in both.
theorem filter (same : (Datum.object members).Reordered (.object members')) (p : String → Bool) :
    (Datum.object (members.filter fun m => p m.1)).Reordered
      (.object (members'.filter fun m => p m.1)) := by
  obtain rfl | ⟨others, distinct, named, order⟩ := same.object_cases
  · apply Reordered.same
  · have kept := List.rel_filter (p := fun m => p m.1) (q := fun m => p m.1)
      (fun _ _ both => by simp only [both.1]) named
    exact .of_named (distinct.sublist (List.filter_sublist.map _)) kept (order.filter _)

theorem symm (same : d.Reordered d') : d'.Reordered d := by
  refine Reordered.induct (P := fun d d' => d'.Reordered d) .same ?list ?object same
  case list => exact fun items items' each => .list each.flip
  case object =>
    intro members others members' distinct names values order
    have back : Named others members := named_of_parts names.symm values.flip
    obtain ⟨moved, all, order'⟩ := List.perm_comp_forall₂ order.symm back
    exact .of_named ((order.map _).nodup_iff.mp (names ▸ distinct)) all order'

theorem trans (first : d.Reordered d') (second : d'.Reordered d'') : d.Reordered d'' := by
  refine Reordered.induct (P := fun d d' => ∀ d'', d'.Reordered d'' → d.Reordered d'')
    (fun _ _ second => second) ?list ?object first d'' second
  case list =>
    intro items items' each d'' second
    cases second with
    | same => exact .list (each.imp fun d d' first => first d' (.same d'))
    | list later => exact .list (forall₂_trans (fun _ _ _ first second => first _ second) each later)
  case object =>
    intro members others members' distinct names values order d'' second
    obtain ⟨members'', rfl⟩ := second.object_left
    have each : List.Forall₂ (fun m o => m.1 = o.1 ∧ ∀ d'', o.2.Reordered d'' → m.2.Reordered d'')
        members others := named_of_parts names values
    obtain rfl | ⟨others', _, named, order'⟩ := second.object_cases
    · exact .of_named distinct (each.imp fun m o both => ⟨both.1, both.2 o.2 (.same o.2)⟩) order
    · -- The second order is met one step earlier, before the members of the first are moved.
      obtain ⟨moved, all, order''⟩ := List.perm_comp_forall₂ order named
      have both : Named members moved := forall₂_trans
        (fun _ _ _ first second => ⟨first.1.trans second.1, first.2 _ second.2⟩) each all
      exact .of_named distinct both (order''.trans order')

end Reordered

end Datum

namespace Value

open Datum (Named Reordered)

theorem ofDatumItems_congr {items items' : List Datum}
    (same : List.Forall₂ (fun d d' => ofDatum d' = ofDatum d) items items') :
    ofDatumItems items' = ofDatumItems items := by
  induction same with
  | nil => rfl
  | cons first _ ih => rw [ofDatumItems, ofDatumItems, first, ih]

theorem ofDatumMembers_congr {members others : List (String × Datum)}
    (names : members.map Prod.fst = others.map Prod.fst)
    (values : List.Forall₂ (fun d d' => ofDatum d' = ofDatum d) (members.map Prod.snd)
      (others.map Prod.snd)) : ofDatumMembers others = ofDatumMembers members := by
  induction members generalizing others with
  | nil =>
    obtain rfl := List.map_eq_nil_iff.mp names.symm
    rfl
  | cons m rest ih =>
    obtain ⟨name, d⟩ := m
    cases others with
    | nil => cases names
    | cons m' rest' =>
      obtain ⟨_, d'⟩ := m'
      rw [List.map_cons, List.map_cons, List.cons.injEq] at names
      obtain ⟨rfl, names⟩ := names
      cases values with
      | cons value values => rw [ofDatumMembers, ofDatumMembers, value, ih names values]

theorem ofDatumMembers_names {members : List (String × Datum)} {columns : List (String × Value)}
    (stored : ofDatumMembers members = .ok columns) :
    members.map Prod.fst = columns.map Prod.fst :=
  map_of_forall₂ (ofDatumMembers_forall₂ stored) fun _ _ both => both.1

theorem ofDatumMembers_unique {members : List (String × Datum)} {columns columns' : List (String × Value)}
    (stored : ofDatumMembers members = .ok columns)
    (all : List.Forall₂ (fun m c => m.1 = c.1 ∧ ofDatum m.2 = .ok c.2) members columns') :
    columns' = columns := by
  induction all generalizing columns with
  | nil => exact (Except.ok.inj stored)
  | @cons m c _ _ first _ ih =>
    obtain ⟨name, d⟩ := m
    obtain ⟨_, v⟩ := c
    obtain ⟨rfl, made⟩ := first
    obtain ⟨v', made', stored⟩ := Document.bind_ok stored
    obtain ⟨later, others, stored⟩ := Document.bind_ok stored
    obtain rfl := Except.ok.inj stored
    obtain rfl := Except.ok.inj (made.symm.trans made')
    rw [ih others]

-- Members in another order are stored as the same row, or one of them has bytes in it.
theorem ofDatumMembers_perm {members members' : List (String × Datum)}
    (order : members.Perm members') (distinct : (members.map Prod.fst).Nodup) :
    (ofDatumMembers members').map Row.ofColumns = (ofDatumMembers members).map Row.ofColumns := by
  have stores := ofDatumMembers_stores members
  have stores' := ofDatumMembers_stores members'
  rw [Datum.hasBinaryMembers_eq_any, any_perm order, ← Datum.hasBinaryMembers_eq_any] at stores'
  cases bytes : Datum.hasBinaryMembers members with
  | true =>
    rw [bytes] at stores stores'
    rw [show ofDatumMembers members = .error _ from stores,
      show ofDatumMembers members' = .error _ from stores']
  | false =>
    rw [bytes] at stores stores'
    obtain ⟨columns, made⟩ := stores
    obtain ⟨columns', made'⟩ := stores'
    obtain ⟨moved, all, order'⟩ := List.perm_comp_forall₂ order.symm (ofDatumMembers_forall₂ made)
    obtain rfl := ofDatumMembers_unique made' all
    rw [made, made']
    refine congrArg Except.ok (Row.ofColumns_perm order'.symm ?_)
    exact ofDatumMembers_names made ▸ distinct

theorem object_of_rows {x y : Except GraphError (List (String × Value))}
    (same : x.map Row.ofColumns = y.map Row.ofColumns) :
    (x.map fun columns => Value.object (Row.ofColumns columns)) =
      y.map fun columns => Value.object (Row.ofColumns columns) := by
  have both := congrArg (Except.map Value.object) same
  cases x <;> cases y <;> exact both

theorem ofDatum_reordered {d d' : Datum} (same : d.Reordered d') : ofDatum d' = ofDatum d := by
  refine Reordered.induct (P := fun d d' => ofDatum d' = ofDatum d) (fun _ => rfl) ?list ?object same
  case list =>
    intro items items' each
    rw [ofDatum, ofDatum, ofDatumItems_congr each]
  case object =>
    intro members others members' distinct names values order
    have moved := ofDatumMembers_perm order (names ▸ distinct)
    rw [ofDatumMembers_congr names values] at moved
    rw [ofDatum, ofDatum]
    exact object_of_rows moved

theorem ofDatumMembers_reordered {members members' : List (String × Datum)}
    (same : (Datum.object members).Reordered (.object members')) :
    (ofDatumMembers members').map Row.ofColumns = (ofDatumMembers members).map Row.ofColumns := by
  have stored := ofDatum_reordered same
  rw [ofDatum, ofDatum] at stored
  cases left : ofDatumMembers members <;> cases right : ofDatumMembers members' <;>
    rw [left, right] at stored
  · exact congrArg Except.error (Except.error.inj stored)
  · cases stored
  · cases stored
  · exact congrArg Except.ok (Value.object.inj (Except.ok.inj stored))

end Value

end RowGraph
