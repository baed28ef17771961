import Mathlib.Data.List.Induction
import RowGraph.Store.Memory
/-!
What a commit does to one key. Of several writes to a key in one operation the last counts, a key
that no write names keeps its row and its stamp, and a commit that does not succeed keeps the whole
store.
-/

namespace RowGraph

namespace Mutation

def left? : Mutation → Option Row
  | .set _ row => some row
  | .delete _ => none

-- What the last write to a key leaves there; without such a write nothing is said.
def last? (key : Key) (writes : List Mutation) : Option (Option Row) :=
  (writes.reverse.find? fun w => w.key = key).map left?

theorem last?_append (key : Key) (writes : List Mutation) (w : Mutation) :
    last? key (writes ++ [w]) = if w.key = key then some w.left? else last? key writes := by
  by_cases named : w.key = key <;> simp [last?, named]

theorem last?_eq_none_iff {key : Key} {writes : List Mutation} :
    last? key writes = none ↔ ∀ w ∈ writes, w.key ≠ key := by
  simp [last?]

-- The last write to a key is the one that no other to this key comes after.
theorem last?_split {before after : List Mutation} {w : Mutation}
    (quiet : ∀ later ∈ after, later.key ≠ w.key) :
    last? w.key (before ++ w :: after) = some w.left? := by
  induction after using List.reverseRecOn with
  | nil => rw [last?_append, if_pos rfl]
  | append_singleton after later ih =>
    have other : later.key ≠ w.key := quiet later (by simp)
    rw [show before ++ w :: (after ++ [later]) = (before ++ w :: after) ++ [later] by simp,
      last?_append, if_neg other]
    exact ih fun earlier member => quiet earlier (List.mem_append_left _ member)

end Mutation

namespace Operation

def Writes (op : Operation) (key : Key) : Prop := ∃ w ∈ op.mutations, w.key = key

def last? (op : Operation) (key : Key) : Option (Option Row) := Mutation.last? key op.mutations

theorem last?_eq_none_iff {op : Operation} {key : Key} : op.last? key = none ↔ ¬ op.Writes key := by
  simp [last?, Mutation.last?_eq_none_iff, Writes]

end Operation

abbrev Stamped := Row × Versionstamp

-- What stands at a key after a commit, by what stood there before and what the commit left.
def settle (stamp : Versionstamp) (old : Option Stamped) : Option (Option Row) → Option Stamped
  | none => old
  | some left => left.map fun row => (row, stamp)

namespace Memory

theorem get?_apply (stamp : Versionstamp) (rows : OrderedMap Key Stamped) (w : Mutation)
    (key : Key) :
    (apply stamp rows w).get? key =
      if w.key = key then w.left?.map (fun row => (row, stamp)) else rows.get? key := by
  have same : compare key w.key = .eq ↔ w.key = key :=
    ⟨fun h => (Std.LawfulEqCmp.eq_of_compare h).symm, fun h => h ▸ Std.ReflCmp.compare_self⟩
  cases w with
  | set place row =>
    change (rows.insert place (row, stamp)).get? key = _
    rw [OrderedMap.get?_insert]
    by_cases named : place = key <;> simp_all [Mutation.key, Mutation.left?]
  | delete place =>
    change (rows.erase place).get? key = _
    rw [OrderedMap.get?_erase]
    by_cases named : place = key <;> simp_all [Mutation.key, Mutation.left?]

theorem get?_foldl_apply (stamp : Versionstamp) (rows : OrderedMap Key Stamped)
    (writes : List Mutation) (key : Key) :
    (writes.foldl (apply stamp) rows).get? key =
      settle stamp (rows.get? key) (Mutation.last? key writes) := by
  induction writes using List.reverseRecOn with
  | nil => rfl
  | append_singleton writes w ih =>
    rw [List.foldl_append, List.foldl_cons, List.foldl_nil, get?_apply, ih, Mutation.last?_append]
    by_cases named : w.key = key <;> simp [named, settle]

-- The three ways a commit can go. Only the last of them changes anything.
theorem commit_cases (m : Memory) (op : Operation) :
    (op.checks.all m.holds = false ∧ m.commit op = (.ok none, m)) ∨
    (op.checks.all m.holds = true ∧ ∃ e, m.version.next = .error e ∧
      m.commit op = (.error (.versionstamp e), m)) ∨
    (op.checks.all m.holds = true ∧ ∃ stamp, m.version.next = .ok stamp ∧
      m.commit op = (.ok (some stamp), ⟨op.mutations.foldl (apply stamp) m.rows, stamp⟩)) := by
  unfold commit
  by_cases holds : op.checks.all m.holds = true
  · cases stepped : m.version.next with
    | error e => exact .inr (.inl ⟨holds, e, rfl, by rw [if_pos holds]⟩)
    | ok stamp => exact .inr (.inr ⟨holds, stamp, rfl, by rw [if_pos holds]⟩)
  · exact .inl ⟨by simpa using holds, by rw [if_neg holds]⟩

theorem commit_ok {m m' : Memory} {op : Operation} {stamp : Versionstamp}
    (committed : m.commit op = (.ok (some stamp), m')) :
    op.checks.all m.holds = true ∧ m.version.next = .ok stamp ∧ m'.version = stamp ∧
      ∀ key, m'.rows.get? key = settle stamp (m.rows.get? key) (op.last? key) := by
  obtain ⟨_, same⟩ | ⟨_, e, _, same⟩ | ⟨holds, v, stepped, same⟩ := commit_cases m op
  · rw [same] at committed; cases committed
  · rw [same] at committed; cases committed
  · rw [same] at committed
    cases committed
    exact ⟨holds, stepped, rfl, fun key => get?_foldl_apply _ _ _ _⟩

-- Without a stamp the store is the one before.
theorem commit_frame {m m' : Memory} {op : Operation}
    {answer : Except StoreError (Option Versionstamp)}
    (asked : m.commit op = (answer, m')) (failed : ∀ stamp, answer ≠ .ok (some stamp)) : m' = m := by
  obtain ⟨_, same⟩ | ⟨_, e, _, same⟩ | ⟨_, v, _, same⟩ := commit_cases m op
  · rw [same] at asked; cases asked; rfl
  · rw [same] at asked; cases asked; rfl
  · rw [same] at asked; cases asked; exact absurd rfl (failed v)

end Memory

end RowGraph
