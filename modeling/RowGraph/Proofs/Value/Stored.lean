import Mathlib.Data.List.Forall2
import Mathlib.Data.List.Induction
import Mathlib.Data.List.Nodup
import RowGraph.Proofs.Schema.Derived
import RowGraph.Value.Datum
/-!
What comes back of a value that is stored. An enum value comes back as the text of its name, and an
object with its members in key order, of several members of one name the last. Main statement: a
value all of whose numbers are signed integers or finite doubles comes back, and is otherwise the
same.
-/

namespace RowGraph

namespace Assoc

variable {κ α : Type} [Ord κ]

theorem Sorted.eq_of_perm [Std.TransOrd κ] {m m' : List (κ × α)} (sorted : Sorted m)
    (sorted' : Sorted m') (same : m.Perm m') : m = m' := by
  refine List.Perm.eq_of_pairwise (fun a b _ _ before after => ?_) sorted sorted' same
  exact absurd before (Std.OrientedCmp.not_lt_of_lt after)

variable [Std.LawfulEqOrd κ]

theorem insert_perm {k : κ} {a : α} {m : List (κ × α)} (absent : k ∉ m.map Prod.fst) :
    (insert k a m).Perm ((k, a) :: m) := by
  induction m with
  | nil => exact .refl _
  | cons e rest ih =>
    rw [List.map_cons, List.mem_cons, not_or] at absent
    unfold insert
    split
    · exact .refl _
    · rename_i same
      exact absurd (Std.LawfulEqOrd.eq_of_compare same) absent.1
    · exact ((ih absent.2).cons _).trans (.swap _ _ _)

theorem perm_ofList {pairs : List (κ × α)} (distinct : (pairs.map Prod.fst).Nodup) :
    (ofList pairs).Perm pairs := by
  induction pairs using List.reverseRecOn with
  | nil => exact .refl _
  | append_singleton pairs e ih =>
    rw [List.map_append, List.nodup_append] at distinct
    obtain ⟨earlier, _, apart⟩ := distinct
    have start := ih earlier
    have absent : e.1 ∉ (ofList pairs).map Prod.fst := fun member =>
      apart _ ((start.map _).mem_iff.mp member) _ (List.mem_singleton_self _) rfl
    rw [ofList, List.foldl_append]
    exact (insert_perm absent).trans ((start.cons e).trans (List.perm_append_singleton e pairs).symm)

theorem Sorted.distinct {m : List (κ × α)} (sorted : Sorted m) : (m.map Prod.fst).Nodup := by
  refine List.pairwise_map.mpr (sorted.imp fun before same => ?_)
  rw [same] at before
  simp at before

-- Pairs that are in order already stay as they are.
theorem ofList_sorted [Std.TransOrd κ] {m : List (κ × α)} (sorted : Sorted m) : ofList m = m :=
  (sorted_ofList m).eq_of_perm sorted (perm_ofList sorted.distinct)

end Assoc

namespace Members

variable {α β : Type}

-- The member that stands when they are stored one after another.
def final? (name : String) (members : List (String × α)) : Option α :=
  (last? (fun m => m.1 = name) members).map (·.2)

theorem final?_snoc (name : String) (members : List (String × α)) (m : String × α) :
    final? name (members ++ [m]) = if m.1 = name then some m.2 else final? name members := by
  unfold final?
  rw [last?_snoc]
  by_cases same : m.1 = name
  · simp [same]
  · simp [same]

-- Lists of members with the same names agree on every name.
theorem final?_rel {R : α → β → Prop} {as : List (String × α)} {bs : List (String × β)}
    (all : List.Forall₂ (fun a b => a.1 = b.1 ∧ R a.2 b.2) as bs) (name : String) :
    Option.Rel R (final? name as) (final? name bs) := by
  unfold final? last?
  have reversed := List.rel_reverse all
  generalize as.reverse = xs at reversed ⊢
  generalize bs.reverse = ys at reversed ⊢
  induction reversed with
  | nil => exact .none
  | @cons a b _ _ related _ ih =>
    rw [List.find?_cons, List.find?_cons, related.1]
    split
    · exact .some related.2
    · exact ih

theorem get?_rel {R : α → β → Prop} {as : List (String × α)} {bs : List (String × β)}
    (all : List.Forall₂ (fun a b => a.1 = b.1 ∧ R a.2 b.2) as bs) (name : String) :
    Option.Rel R (Assoc.lookup name as) (get? name bs) := by
  induction all with
  | nil => exact .none
  | @cons a b _ _ related _ ih =>
    rw [Assoc.lookup, get?_cons, ← related.1,
      if_congr (Std.LawfulEqOrd.compare_eq_iff_eq.trans eq_comm) rfl rfl]
    by_cases same : a.1 = name
    · rw [if_pos same, if_pos same]
      exact .some related.2
    · rw [if_neg same, if_neg same]
      exact ih

end Members

theorem Row.column?_ofColumns (name : String) (columns : List (String × Value)) :
    (Row.ofColumns columns).column? name = Members.final? name columns := by
  unfold Row.column? Row.ofColumns Assoc.ofList
  induction columns using List.reverseRecOn with
  | nil => rfl
  | append_singleton columns c ih =>
    rw [List.foldl_append, List.foldl_cons, List.foldl_nil, Assoc.lookup_insert, ih,
      Members.final?_snoc]
    exact if_congr (Std.LawfulEqOrd.compare_eq_iff_eq.trans eq_comm) rfl rfl

namespace Number

-- Numbers that a value holds as they are.
def Exact : Number → Prop
  | .int _ => True
  | .wide _ => False
  | .float f => Value.isFinite f = true

end Number

namespace Datum

mutual

-- All numbers in it are signed integers or finite doubles.
def Exact : Datum → Prop
  | .number n => n.Exact
  | .list items => ExactItems items
  | .object members => ExactMembers members
  | _ => True

def ExactItems : List Datum → Prop
  | [] => True
  | d :: rest => d.Exact ∧ ExactItems rest

def ExactMembers : List (String × Datum) → Prop
  | [] => True
  | (_, d) :: rest => d.Exact ∧ ExactMembers rest

end

def text? : Datum → Option String
  | .string s => some s
  | .enum name => some name
  | _ => none

-- What is shown is what was written. Enum values count by their names, and the members of an object
-- may come in any order.
inductive Shows : Datum → Datum → Prop where
  | null : Shows .null .null
  | bool (b : Bool) : Shows (.bool b) (.bool b)
  | number (n : Number) : Shows (.number n) (.number n)
  | text : written.text? = some s → shown.text? = some s → Shows written shown
  | list : List.Forall₂ Shows written shown → Shows (.list written) (.list shown)
  | object : (∀ name, Option.Rel Shows (Members.final? name written) (Members.get? name shown)) →
      (shown.map Prod.fst).Nodup → Shows (.object written) (.object shown)

end Datum

namespace Value

-- A stored value that is shown as what was written.
def Keeps (d : Datum) (v : Value) : Prop := ∃ shown, v.toDatum = .ok shown ∧ d.Shows shown

theorem map_ok {α β : Type} {x : Except GraphError α} {f : α → β} {b : β} (made : x.map f = .ok b) :
    ∃ a, x = .ok a ∧ f a = b := by
  cases x with
  | error e => cases made
  | ok a => exact ⟨a, rfl, Except.ok.inj made⟩

theorem toDatumItems_ok {written : List Datum} {stored : List Value}
    (kept : List.Forall₂ Keeps written stored) :
    ∃ shown, toDatumItems stored = .ok shown ∧ List.Forall₂ Datum.Shows written shown := by
  induction kept with
  | nil => exact ⟨[], rfl, .nil⟩
  | cons first _ ih =>
    obtain ⟨d, made, shows⟩ := first
    obtain ⟨ds, mades, all⟩ := ih
    refine ⟨d :: ds, ?_, .cons shows all⟩
    rw [toDatumItems, made, mades]
    rfl

theorem toDatumColumns_ok {columns : List (String × Value)}
    (each : ∀ c ∈ columns, ∃ d, c.2.toDatum = .ok d) :
    ∃ shown, toDatumColumns columns = .ok shown ∧
      List.Forall₂ (fun c m => c.1 = m.1 ∧ c.2.toDatum = .ok m.2) columns shown := by
  induction columns with
  | nil => exact ⟨[], rfl, .nil⟩
  | cons c rest ih =>
    obtain ⟨name, v⟩ := c
    obtain ⟨d, made⟩ := each _ List.mem_cons_self
    obtain ⟨ds, mades, all⟩ := ih fun c member => each c (List.mem_cons_of_mem _ member)
    refine ⟨(name, d) :: ds, ?_, .cons ⟨rfl, made⟩ all⟩
    rw [toDatumColumns, made, mades]
    rfl

-- Columns are stored under distinct names.
theorem ofColumns_nodup (columns : List (String × Value)) :
    ((Row.ofColumns columns).map Prod.fst).Nodup := (Assoc.sorted_ofList columns).distinct

theorem keeps_object {written : List (String × Datum)} {columns : List (String × Value)}
    (kept : List.Forall₂ (fun m c => m.1 = c.1 ∧ Keeps m.2 c.2) written columns) :
    Keeps (.object written) (.object (Row.ofColumns columns)) := by
  have each (c) (member : c ∈ Row.ofColumns columns) : ∃ d, c.2.toDatum = .ok d := by
    obtain ⟨_, _, _, d, made, _⟩ := mem_of_forall₂ kept.flip (Assoc.mem_of_mem_ofList member)
    exact ⟨d, made⟩
  obtain ⟨shown, made, all⟩ := toDatumColumns_ok each
  refine ⟨.object shown, by rw [toDatum, made]; rfl, .object (fun name => ?_) ?_⟩
  · -- Both sides agree with the row: it holds the last member, and each name once.
    have stored := Members.final?_rel kept name
    rw [← Row.column?_ofColumns, Row.column?] at stored
    have read := Members.get?_rel (R := fun (v : Value) (d : Datum) => v.toDatum = .ok d) all name
    generalize Assoc.lookup name (Row.ofColumns columns) = column at stored read
    generalize Members.final? name written = asked at stored ⊢
    generalize Members.get? name shown = answer at read ⊢
    cases stored with
    | none =>
      cases read
      exact .none
    | some keeps =>
      cases read with
      | some made' =>
        obtain ⟨d, made, shows⟩ := keeps
        obtain rfl := Except.ok.inj (made.symm.trans made')
        exact .some shows
  · rw [← map_of_forall₂ all fun _ _ both => both.1]
    exact ofColumns_nodup columns

mutual

theorem keeps_ofDatum : ∀ {d : Datum} {v : Value}, d.Exact → ofDatum d = .ok v → Keeps d v
  | .null, v, _, stored => by
    obtain rfl := Except.ok.inj stored
    exact ⟨_, rfl, .null⟩
  | .bool b, v, _, stored => by
    obtain rfl := Except.ok.inj stored
    exact ⟨_, rfl, .bool b⟩
  | .number (.int n), v, _, stored => by
    obtain rfl := Except.ok.inj stored
    exact ⟨_, rfl, .number _⟩
  | .number (.float f), v, precise, stored => by
    obtain rfl := Except.ok.inj stored
    exact ⟨_, if_pos precise, .number _⟩
  | .string s, v, _, stored => by
    obtain rfl := Except.ok.inj stored
    exact ⟨_, rfl, .text rfl rfl⟩
  | .enum name, v, _, stored => by
    obtain rfl := Except.ok.inj stored
    exact ⟨_, rfl, .text rfl rfl⟩
  | .number (.wide _), _, precise, _ => precise.elim
  | .binary _, _, _, stored => nomatch stored
  | .list items, v, precise, stored => by
    obtain ⟨vs, all, rfl⟩ := map_ok stored
    obtain ⟨shown, made, shows⟩ := toDatumItems_ok (keeps_ofDatumItems precise all)
    exact ⟨.list shown, by rw [toDatum, made]; rfl, .list shows⟩
  | .object members, v, precise, stored => by
    obtain ⟨columns, all, rfl⟩ := map_ok stored
    exact keeps_object (keeps_ofDatumMembers precise all)

theorem keeps_ofDatumItems : ∀ {items : List Datum} {vs : List Value}, Datum.ExactItems items →
    ofDatumItems items = .ok vs → List.Forall₂ Keeps items vs
  | [], vs, _, stored => by
    obtain rfl := Except.ok.inj stored
    exact .nil
  | d :: rest, vs, precise, stored => by
    obtain ⟨v, first, stored⟩ := Document.bind_ok stored
    obtain ⟨vs', later, stored⟩ := Document.bind_ok stored
    obtain rfl := Except.ok.inj stored
    exact .cons (keeps_ofDatum precise.1 first) (keeps_ofDatumItems precise.2 later)

theorem keeps_ofDatumMembers :
    ∀ {members : List (String × Datum)} {columns : List (String × Value)},
      Datum.ExactMembers members → ofDatumMembers members = .ok columns →
        List.Forall₂ (fun m c => m.1 = c.1 ∧ Keeps m.2 c.2) members columns
  | [], columns, _, stored => by
    obtain rfl := Except.ok.inj stored
    exact .nil
  | (name, d) :: rest, columns, precise, stored => by
    obtain ⟨v, first, stored⟩ := Document.bind_ok stored
    obtain ⟨columns', later, stored⟩ := Document.bind_ok stored
    obtain rfl := Except.ok.inj stored
    exact .cons ⟨rfl, keeps_ofDatum precise.1 first⟩ (keeps_ofDatumMembers precise.2 later)

end

end Value

end RowGraph
