import RowGraph.Proofs.Value.Elementwise
/-!
From stored values to GraphQL values and back. Main statement: each of the two conversions fails
just where something is in a value, at whatever depth, that the other side has no value for; and one
after the other they give the value back, with null for what is absent, or with its members in
another order.
-/

namespace RowGraph

open Nested

namespace Value

-- Rows have their columns in key order, at every depth.
def Ordered (v : Value) : Prop := ∀ columns, PartOf (.object columns) v → Assoc.Sorted columns

theorem Ordered.inner {u v : Value} (ordered : v.Ordered) (member : u ∈ Nested.inner v) :
    u.Ordered := fun columns part => ordered columns (.inside member part)

theorem Ordered.columns {columns : List (String × Value)}
    (ordered : (Value.object columns).Ordered) : Assoc.Sorted columns := ordered columns (.whole _)

theorem Ordered.of_inner {v : Value} (own : ∀ columns, v = .object columns → Assoc.Sorted columns)
    (each : ∀ u ∈ Nested.inner v, u.Ordered) : v.Ordered := by
  intro columns part
  rcases part_iff.mp part with same | ⟨u, member, part⟩
  · exact own columns same.symm
  · exact each u member columns part

mutual

-- Null stands for every part that is gone; collections stay.
def blanked (gone : Value → Bool) : Value → Value
  | .array items => .array (blankedItems gone items)
  | .object columns => .object (blankedColumns gone columns)
  | v => if gone v then .null else v

def blankedItems (gone : Value → Bool) : List Value → List Value
  | [] => []
  | v :: rest => blanked gone v :: blankedItems gone rest

def blankedColumns (gone : Value → Bool) : List (String × Value) → List (String × Value)
  | [] => []
  | (name, v) :: rest => (name, blanked gone v) :: blankedColumns gone rest

end

theorem blankedItems_eq (gone : Value → Bool) (items : List Value) :
    blankedItems gone items = items.map (blanked gone) :=
  eq_map_of_cons rfl (fun _ _ => rfl) items

theorem blankedColumns_eq (gone : Value → Bool) (columns : List (String × Value)) :
    blankedColumns gone columns = Members.mapValues (blanked gone) columns :=
  eq_map_of_cons rfl (fun _ _ => rfl) columns

theorem blanked_whole {gone : Value → Bool} {v : Value} (stays : ∀ u, PartOf u v → gone u = false) :
    v.blanked gone = v := by
  induction v using Nested.induct with
  | step v ih =>
    have within (u) (member : u ∈ Nested.inner v) : u.blanked gone = u :=
      ih u member fun w part => stays w (.inside member part)
    cases v with
    | array items =>
      have each : items.map (blanked gone) = items.map id := List.map_congr_left within
      rw [blanked, blankedItems_eq, each, List.map_id]
    | object columns =>
      rw [blanked, blankedColumns_eq, Members.mapValues_congr within, Members.mapValues_id]
    | _ => rw [blanked, stays _ (.whole _)] <;> first | rfl | simp

def isAbsent : Value → Bool
  | .none => true
  | _ => false

-- What stands in the way of showing a value is a number in it that is not finite.
theorem toDatum_error {v : Value} {e : GraphError} (failed : v.toDatum = .error e) :
    ∃ f, PartOf (.float f) v ∧ isFinite f = false ∧ e = (ResolveProblem.notFinite f).error := by
  induction v using Nested.induct with
  | step v ih =>
    cases v with
    | array items =>
      rw [toDatum, toDatumItems_eq] at failed
      obtain ⟨u, member, failed⟩ := Request.mapM_error (map_error_iff.mp failed)
      obtain ⟨f, part, infinite, same⟩ := ih u member failed
      exact ⟨f, .inside member part, infinite, same⟩
    | object columns =>
      rw [toDatum, toDatumColumns_eq] at failed
      obtain ⟨c, member, failed⟩ := Request.mapM_error (map_error_iff.mp failed)
      have held : c.2 ∈ columns.map Prod.snd := List.mem_map_of_mem member
      obtain ⟨f, part, infinite, same⟩ := ih c.2 held (Members.converted_error.mp failed)
      exact ⟨f, .inside held part, infinite, same⟩
    | float f =>
      rw [toDatum] at failed
      cases finite : isFinite f with
      | true =>
        rw [finite] at failed
        cases failed
      | false =>
        rw [finite] at failed
        exact ⟨f, .whole _, finite, (Except.error.inj failed).symm⟩
    | _ => cases failed

theorem toDatum_inner {u v : Value} {d : Datum} (made : v.toDatum = .ok d)
    (member : u ∈ Nested.inner v) : ∃ d', u.toDatum = .ok d' := by
  cases v with
  | array items =>
    obtain ⟨ds, each, _⟩ := toDatum_array.mp made
    obtain ⟨d', _, made'⟩ := mem_of_forall₂ each member
    exact ⟨d', made'⟩
  | object columns =>
    obtain ⟨members, each, _⟩ := toDatum_object.mp made
    obtain ⟨c, inside, rfl⟩ := List.mem_map.mp member
    obtain ⟨m, _, _, made'⟩ := mem_of_forall₂ each inside
    exact ⟨m.2, made'⟩
  | _ => cases member

theorem toDatum_finite {v : Value} {d : Datum} {f : Float} (made : v.toDatum = .ok d)
    (part : PartOf (.float f) v) : isFinite f = true := by
  generalize held : Value.float f = u at part
  induction part generalizing d with
  | whole =>
    subst held
    by_contra infinite
    rw [toDatum, if_neg infinite] at made
    cases made
  | inside member _ ih =>
    obtain ⟨d', made'⟩ := toDatum_inner made member
    exact ih made'

theorem toDatum_fails_iff (v : Value) :
    (∃ e, v.toDatum = .error e) ↔ ∃ f, PartOf (.float f) v ∧ (f.isNaN ∨ f.isInf) := by
  have infinite (f : Float) : isFinite f = false ↔ f.isNaN ∨ f.isInf := by
    unfold isFinite
    cases f.isNaN <;> cases f.isInf <;> simp
  constructor
  · rintro ⟨e, failed⟩
    obtain ⟨f, part, notFinite, _⟩ := toDatum_error failed
    exact ⟨f, part, (infinite f).mp notFinite⟩
  · rintro ⟨f, part, notFinite⟩
    cases made : v.toDatum with
    | error e => exact ⟨e, rfl⟩
    | ok d => cases (toDatum_finite made part).symm.trans ((infinite f).mpr notFinite)

theorem ofDatum_toDatum {v : Value} {d : Datum} (ordered : v.Ordered) (made : v.toDatum = .ok d) :
    ofDatum d = .ok (v.blanked isAbsent) := by
  induction v using Nested.induct generalizing d with
  | step v ih =>
    have within (u) (member : u ∈ Nested.inner v) (d) (made : u.toDatum = .ok d) :
        ofDatum d = .ok (u.blanked isAbsent) := ih u member (ordered.inner member) made
    cases v with
    | array items =>
      obtain ⟨ds, each, rfl⟩ := toDatum_array.mp made
      refine ofDatum_list.mpr ⟨_, forall₂_map each within, ?_⟩
      rw [blanked, blankedItems_eq]
    | object columns =>
      obtain ⟨members, each, rfl⟩ := toDatum_object.mp made
      have back : List.Forall₂ (fun m c => m.1 = c.1 ∧ ofDatum m.2 = .ok c.2) members
          (Members.mapValues (blanked isAbsent) columns) :=
        forall₂_map each fun c member m both =>
          ⟨both.1.symm, within c.2 (List.mem_map_of_mem member) m.2 both.2⟩
      refine ofDatum_object.mpr ⟨_, back, ?_⟩
      rw [blanked, blankedColumns_eq,
        Row.ofColumns_sorted (Members.sorted_mapValues ordered.columns)]
    | float f =>
      have finite := toDatum_finite made (.whole _)
      rw [toDatum, if_pos finite] at made
      cases made
      rfl
    | _ =>
      cases made
      rfl

-- Whatever is in a stored value was stored from a part of what was given.
theorem ofDatum_inner {d : Datum} {v w : Value} (stored : ofDatum d = .ok v)
    (member : w ∈ Nested.inner v) : ∃ u ∈ Nested.inner d, ofDatum u = .ok w := by
  cases d with
  | list items =>
    obtain ⟨vs, each, rfl⟩ := ofDatum_list.mp stored
    exact mem_of_forall₂ each.flip member
  | object members =>
    obtain ⟨columns, each, rfl⟩ := ofDatum_object.mp stored
    obtain ⟨c, inside, rfl⟩ := List.mem_map.mp member
    obtain ⟨m, given, _, made⟩ := mem_of_forall₂ each.flip (Assoc.mem_of_mem_ofList inside)
    exact ⟨m.2, List.mem_map_of_mem given, made⟩
  | number n =>
    cases n <;>
    · obtain rfl := Except.ok.inj stored
      cases member
  | binary => cases stored
  | _ =>
    obtain rfl := Except.ok.inj stored
    cases member

theorem ofDatum_part {d : Datum} {v w : Value} (stored : ofDatum d = .ok v) (part : PartOf w v) :
    ∃ u, PartOf u d ∧ ofDatum u = .ok w := by
  induction part generalizing d with
  | whole => exact ⟨d, .whole d, stored⟩
  | inside member _ ih =>
    obtain ⟨u, held, made⟩ := ofDatum_inner stored member
    obtain ⟨u', part, made'⟩ := ih made
    exact ⟨u', .inside held part, made'⟩

theorem ofDatum_top {d : Datum} {v : Value} (stored : ofDatum d = .ok v) :
    v ≠ .none ∧ ∀ columns, v = .object columns → Assoc.Sorted columns := by
  cases d with
  | list items =>
    obtain ⟨vs, _, rfl⟩ := ofDatum_list.mp stored
    exact ⟨nofun, nofun⟩
  | object members =>
    obtain ⟨given, _, rfl⟩ := ofDatum_object.mp stored
    refine ⟨nofun, fun columns same => ?_⟩
    rw [← Value.object.inj same]
    exact Assoc.sorted_ofList given
  | number n =>
    cases n <;>
    · obtain rfl := Except.ok.inj stored
      exact ⟨nofun, nofun⟩
  | binary => cases stored
  | _ =>
    obtain rfl := Except.ok.inj stored
    exact ⟨nofun, nofun⟩

-- Rows are stored in key order, and nothing that is stored is absent.
theorem ofDatum_ordered {d : Datum} {v : Value} (stored : ofDatum d = .ok v) :
    v.Ordered ∧ ¬ PartOf .none v := by
  constructor
  · intro columns part
    obtain ⟨u, _, made⟩ := ofDatum_part stored part
    exact (ofDatum_top made).2 columns rfl
  · intro part
    obtain ⟨u, _, made⟩ := ofDatum_part stored part
    exact (ofDatum_top made).1 rfl

end Value

namespace Datum

theorem hasBinary_iff (g : Datum) : g.hasBinary = true ↔ ∃ bytes, PartOf (.binary bytes) g := by
  induction g using Nested.induct with
  | step g ih =>
    have inside : (∃ bytes, PartOf (.binary bytes) g) ↔
        (∃ bytes, .binary bytes = g) ∨ ∃ u ∈ Nested.inner g, u.hasBinary = true := by
      constructor
      · rintro ⟨bytes, part⟩
        rcases part_iff.mp part with same | ⟨u, member, part⟩
        · exact .inl ⟨bytes, same⟩
        · exact .inr ⟨u, member, (ih u member).mpr ⟨bytes, part⟩⟩
      · rintro (⟨bytes, rfl⟩ | ⟨u, member, binary⟩)
        · exact ⟨bytes, .whole _⟩
        · obtain ⟨bytes, part⟩ := (ih u member).mp binary
          exact ⟨bytes, .inside member part⟩
    rw [inside]
    cases g with
    | list items => simp [hasBinary, hasBinaryItems_eq_any, Nested.inner, inner]
    | object members =>
      have listed : members.any (fun m => m.2.hasBinary) = (members.map Prod.snd).any hasBinary :=
        List.any_map.symm
      simp only [hasBinary, hasBinaryMembers_eq_any, listed, List.any_eq_true, reduceCtorEq,
        exists_false, false_or]
      rfl
    | _ => simp [hasBinary, Nested.inner, inner]

-- Values that are stored as they are: members have names of their own, and no enum values or
-- numbers have to be put in other words.
structure Verbatim (g : Datum) : Prop where
  distinct : ∀ members, PartOf (.object members) g → (members.map Prod.fst).Nodup
  nameless : ∀ name, ¬ PartOf (.enum name) g
  exact : ∀ n, PartOf (.number n) g → n.Exact

theorem Verbatim.inner {u g : Datum} (verbatim : g.Verbatim) (member : u ∈ Nested.inner g) :
    u.Verbatim :=
  ⟨fun members part => verbatim.distinct members (.inside member part),
    fun name part => verbatim.nameless name (.inside member part),
    fun n part => verbatim.exact n (.inside member part)⟩

theorem Verbatim.of_inner {g : Datum}
    (distinct : ∀ members, g = .object members → (members.map Prod.fst).Nodup)
    (nameless : ∀ name, g ≠ .enum name) (exact : ∀ n, g = .number n → n.Exact)
    (each : ∀ u ∈ Nested.inner g, u.Verbatim) : g.Verbatim := by
  refine ⟨fun members part => ?_, fun name part => ?_, fun n part => ?_⟩ <;>
    rcases part_iff.mp part with same | ⟨u, member, part⟩
  · exact distinct members same.symm
  · exact (each u member).distinct members part
  · exact nameless name same.symm
  · exact (each u member).nameless name part
  · exact exact n same.symm
  · exact (each u member).exact n part

end Datum

namespace Value

theorem ofDatum_fails_iff (g : Datum) :
    (∃ e, ofDatum g = .error e) ↔ ∃ bytes, PartOf (.binary bytes) g := by
  rw [← Datum.hasBinary_iff]
  have stores := ofDatum_stores g
  cases binary : g.hasBinary with
  | true =>
    rw [binary] at stores
    exact ⟨fun _ => rfl, fun _ => ⟨_, stores⟩⟩
  | false =>
    rw [binary] at stores
    obtain ⟨v, stored⟩ := stores
    refine ⟨fun ⟨e, failed⟩ => ?_, (nomatch ·)⟩
    cases stored.symm.trans failed

theorem toDatum_ofDatum {g : Datum} {v : Value} (verbatim : g.Verbatim)
    (stored : ofDatum g = .ok v) : ∃ shown, v.toDatum = .ok shown ∧ g.Reordered shown := by
  induction g using Nested.induct generalizing v with
  | step g ih =>
    have within (u) (member : u ∈ Nested.inner g) (w) (stored : ofDatum u = .ok w) :
        ∃ shown, w.toDatum = .ok shown ∧ u.Reordered shown :=
      ih u member (verbatim.inner member) stored
    cases g with
    | list items =>
      obtain ⟨vs, each, rfl⟩ := ofDatum_list.mp stored
      obtain ⟨ds, made, same⟩ := forall₂_choose each within
      exact ⟨_, toDatum_array.mpr ⟨ds, made, rfl⟩, .list same⟩
    | object members =>
      obtain ⟨columns, each, rfl⟩ := ofDatum_object.mp stored
      have distinct := verbatim.distinct members (.whole _)
      obtain ⟨others, made, named⟩ : ∃ others : List (String × Datum),
          List.Forall₂ (fun c m => c.1 = m.1 ∧ toDatum c.2 = .ok m.2) columns others ∧
            Datum.Named members others := by
        refine forall₂_choose each fun m member c both => ?_
        obtain ⟨shown, made, same⟩ := within m.2 (List.mem_map_of_mem member) c.2 both.2
        exact ⟨(c.1, shown), ⟨rfl, made⟩, both.1, same⟩
      -- The row has the same columns in key order, and they are shown in that order.
      have order : (Row.ofColumns columns).Perm columns :=
        Assoc.perm_ofList (map_of_forall₂ each (fun _ _ both => both.1) ▸ distinct)
      obtain ⟨shown, made, order⟩ := List.perm_comp_forall₂ order made
      exact ⟨_, toDatum_object.mpr ⟨shown, made, rfl⟩, .of_named distinct named order.symm⟩
    | number n =>
      have exact := verbatim.exact n (.whole _)
      cases n with
      | int n =>
        obtain rfl := Except.ok.inj stored
        exact ⟨_, rfl, .same _⟩
      | wide n => exact exact.elim
      | float f =>
        obtain rfl := Except.ok.inj stored
        exact ⟨_, if_pos exact, .same _⟩
    | enum name => exact absurd (.whole _) (verbatim.nameless name)
    | binary => cases stored
    | _ =>
      obtain rfl := Except.ok.inj stored
      exact ⟨_, rfl, .same _⟩

theorem toDatum_injective {v w : Value} (ordered : v.Ordered) (ordered' : w.Ordered)
    (present : ¬ PartOf .none v) (present' : ¬ PartOf .none w) {d e : Datum}
    (made : v.toDatum = .ok d) (made' : w.toDatum = .ok e) (same : d.Reordered e) : v = w := by
  have whole {u : Value} (present : ¬ PartOf .none u) : u.blanked isAbsent = u :=
    blanked_whole fun u' part => by
      cases u' with
      | none => exact absurd part present
      | _ => rfl
  have back := ofDatum_toDatum ordered made
  have back' := ofDatum_toDatum ordered' made'
  rw [ofDatum_reordered same, back, whole present, whole present'] at back'
  exact Except.ok.inj back'

theorem ofDatum_injective {g h : Datum} (verbatim : g.Verbatim) (verbatim' : h.Verbatim) {v : Value}
    (stored : ofDatum g = .ok v) (stored' : ofDatum h = .ok v) : g.Reordered h := by
  obtain ⟨shown, made, same⟩ := toDatum_ofDatum verbatim stored
  obtain ⟨shown', made', same'⟩ := toDatum_ofDatum verbatim' stored'
  obtain rfl : shown = shown' := Except.ok.inj (made.symm.trans made')
  exact same.trans same'.symm

end Value

open Value in
theorem values_convert_back :
    (∀ v : Value,
      ((∃ e, v.toDatum = .error e) ↔ ∃ f, PartOf (.float f) v ∧ (f.isNaN ∨ f.isInf)) ∧
      (v.Ordered → ∀ d, v.toDatum = .ok d → ofDatum d = .ok (v.blanked isAbsent))) ∧
    (∀ g : Datum,
      ((∃ e, ofDatum g = .error e) ↔ ∃ bytes, PartOf (.binary bytes) g) ∧
      ∀ v, ofDatum g = .ok v → v.Ordered ∧ ¬ PartOf .none v ∧
        (g.Verbatim → ∃ shown, v.toDatum = .ok shown ∧ g.Reordered shown)) ∧
    (∀ v w : Value, v.Ordered → w.Ordered → ¬ PartOf .none v → ¬ PartOf .none w →
      ∀ d e, v.toDatum = .ok d → w.toDatum = .ok e → d.Reordered e → v = w) ∧
    ∀ g h : Datum, g.Verbatim → h.Verbatim →
      ∀ v, ofDatum g = .ok v → ofDatum h = .ok v → g.Reordered h :=
  ⟨fun v => ⟨toDatum_fails_iff v, fun ordered _ => ofDatum_toDatum ordered⟩,
    fun g => ⟨ofDatum_fails_iff g, fun _ stored => ⟨(ofDatum_ordered stored).1,
      (ofDatum_ordered stored).2, fun verbatim => toDatum_ofDatum verbatim stored⟩⟩,
    fun _ _ ordered ordered' present present' _ _ =>
      toDatum_injective ordered ordered' present present',
    fun _ _ verbatim verbatim' _ => ofDatum_injective verbatim verbatim'⟩

-- Zero below zero and a whole double stay what they are; what is absent comes back as null.
def bookRow : Value := .object
  [("notes", .array [.none, .float (-0.0), .float 2.0]), ("title", .string "Dune"),
    ("year", .int 1965)]

def bookShown : Datum := .object
  [("notes", .list [.null, .number (.float (-0.0)), .number (.float 2.0)]),
    ("title", .string "Dune"), ("year", .int 1965)]

theorem bookRow_ordered : bookRow.Ordered := by
  have notes : (Value.array [.none, .float (-0.0), .float 2.0]).Ordered := by
    refine .of_inner nofun (List.forall_mem_cons.mpr ⟨?_, List.forall_mem_cons.mpr ⟨?_, ?_⟩⟩)
    · exact .of_inner nofun nofun
    · exact .of_inner nofun nofun
    · exact List.forall_mem_singleton.mpr (.of_inner nofun nofun)
  refine .of_inner (fun columns same => ?_) ?_
  · rw [← Value.object.inj same]
    unfold Assoc.Sorted
    decide
  · refine List.forall_mem_cons.mpr ⟨notes, List.forall_mem_cons.mpr ⟨?_, ?_⟩⟩
    · exact .of_inner nofun nofun
    · exact List.forall_mem_singleton.mpr (.of_inner nofun nofun)

theorem bookRow_toDatum : bookRow.toDatum = .ok bookShown := by
  have finite : Value.isFinite (-0.0) = true ∧ Value.isFinite 2.0 = true := by decide +kernel
  simp only [bookRow, Value.toDatum, Value.toDatumColumns, Value.toDatumItems, finite, if_true]
  rfl

def bookInput : Datum := .object [("year", .int 1965), ("title", .string "Dune")]

def bookInputTurned : Datum := .object [("title", .string "Dune"), ("year", .int 1965)]

open Value in
theorem book_converts_back :
    (bookRow.Ordered ∧ bookRow.toDatum = .ok bookShown ∧ ofDatum bookShown = .ok (.object
      [("notes", .array [.null, .float (-0.0), .float 2.0]), ("title", .string "Dune"),
        ("year", .int 1965)])) ∧
    bookInput.Verbatim ∧ bookInputTurned.Verbatim ∧ bookInput.Reordered bookInputTurned ∧
      ∃ v w shown shown', v = w ∧
        ofDatum bookInput = .ok v ∧ v.toDatum = .ok shown ∧ bookInput.Reordered shown ∧
        ofDatum bookInputTurned = .ok w ∧ w.toDatum = .ok shown' ∧
          bookInputTurned.Reordered shown' := by
  obtain ⟨out, back, apart, alike⟩ := values_convert_back
  have text : (Datum.string "Dune").Verbatim := .of_inner nofun nofun nofun nofun
  have number : (Datum.int 1965).Verbatim :=
    .of_inner nofun nofun (fun n same => Datum.number.inj same ▸ trivial) nofun
  have verbatim : bookInput.Verbatim := by
    refine .of_inner (fun members same => ?_) nofun nofun ?_
    · rw [← Datum.object.inj same]
      decide
    · exact List.forall_mem_cons.mpr ⟨number, List.forall_mem_singleton.mpr text⟩
  have verbatim' : bookInputTurned.Verbatim := by
    refine .of_inner (fun members same => ?_) nofun nofun ?_
    · rw [← Datum.object.inj same]
      decide
    · exact List.forall_mem_cons.mpr ⟨text, List.forall_mem_singleton.mpr number⟩
  have stored : ofDatum bookInput = .ok (.object
      [("title", .string "Dune"), ("year", .int 1965)]) := rfl
  have stored' : ofDatum bookInputTurned = ofDatum bookInput := rfl
  rw [stored] at stored'
  have same := alike bookInput bookInputTurned verbatim verbatim' _ stored stored'
  obtain ⟨sorted, present, again⟩ := (back bookInput).2 _ stored
  obtain ⟨sorted', present', again'⟩ := (back bookInputTurned).2 _ stored'
  obtain ⟨shown, made, kept⟩ := again verbatim
  obtain ⟨shown', made', kept'⟩ := again' verbatim'
  have both := apart _ _ sorted sorted' present present' _ _ made made'
    (kept.symm.trans (same.trans kept'))
  exact ⟨⟨bookRow_ordered, bookRow_toDatum, (out bookRow).2 bookRow_ordered _ bookRow_toDatum⟩,
    verbatim, verbatim', same, _, _, shown, shown', both, stored, made, kept, stored', made', kept'⟩

end RowGraph
