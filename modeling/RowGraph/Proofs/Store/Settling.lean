import Mathlib.Data.List.Nodup
import RowGraph.Proofs.Store.Writes
import RowGraph.Proofs.Versionstamp.Counter
/-!
What an in-memory store makes of an operation, whatever its state. All checks are judged by what
stands before the operation, and an operation that does not go through changes nothing; of one that
does, the last write to each key counts. Main statement: this settles the answer and the store, so
neither the order of the checks matters nor that of neighbouring writes to different keys.
-/

namespace RowGraph.Memory

-- Every check is met by what stands in the store.
def Passes (m : Memory) (op : Operation) : Prop := ∀ c ∈ op.checks, m.stamp? c.key = c.expected

theorem all_holds_iff (m : Memory) (op : Operation) :
    op.checks.all m.holds = true ↔ m.Passes op := by
  simp only [List.all_eq_true, holds, decide_eq_true_iff, Passes]

theorem commit_refused {m : Memory} {op : Operation} (fails : ¬ m.Passes op) :
    m.commit op = (.ok none, m) := by
  unfold commit
  rw [if_neg fun holds => fails ((m.all_holds_iff op).mp holds)]

theorem commit_passed {m : Memory} {op : Operation} (passes : m.Passes op) :
    m.commit op = match m.version.next with
      | .ok stamp => (.ok (some stamp), ⟨op.mutations.foldl (apply stamp) m.rows, stamp⟩)
      | .error e => (.error (.versionstamp e), m) := by
  unfold commit
  exact if_pos ((m.all_holds_iff op).mpr passes)

-- Checks count as a set, and writes by what they do to the rows.
theorem commit_congr {m : Memory} {op op' : Operation}
    (checks : ∀ c, c ∈ op'.checks ↔ c ∈ op.checks)
    (writes : ∀ stamp, op'.mutations.foldl (apply stamp) m.rows =
      op.mutations.foldl (apply stamp) m.rows) : m.commit op' = m.commit op := by
  have same : m.Passes op' ↔ m.Passes op := forall_congr' fun c => imp_congr_left (checks c)
  by_cases passes : m.Passes op
  · rw [commit_passed passes, commit_passed (same.mpr passes)]
    simp only [writes]
  · rw [commit_refused passes, commit_refused fun passes' => passes (same.mp passes')]

theorem apply_comm (stamp : Versionstamp) (rows : OrderedMap Key Stamped) {w v : Mutation}
    (apart : w.key ≠ v.key) :
    apply stamp (apply stamp rows w) v = apply stamp (apply stamp rows v) w := by
  refine OrderedMap.ext_get? fun key => ?_
  simp only [get?_apply]
  by_cases first : w.key = key
  · have other : v.key ≠ key := fun second => apart (first.trans second.symm)
    rw [if_neg other, if_pos first, if_pos first]
  · rw [if_neg first, if_neg first]

theorem foldl_apply_swap (stamp : Versionstamp) (rows : OrderedMap Key Stamped)
    (before after : List Mutation) {w v : Mutation} (apart : w.key ≠ v.key) :
    (before ++ v :: w :: after).foldl (apply stamp) rows =
      (before ++ w :: v :: after).foldl (apply stamp) rows := by
  simp only [List.foldl_append, List.foldl_cons, apply_comm stamp _ apart]

-- Writes to different keys may come in any order.
theorem foldl_apply_perm (stamp : Versionstamp) (rows : OrderedMap Key Stamped)
    {writes writes' : List Mutation} (same : writes.Perm writes')
    (distinct : (writes.map Mutation.key).Nodup) :
    writes'.foldl (apply stamp) rows = writes.foldl (apply stamp) rows := by
  refine (same.foldl_eq' (fun w member v member' rows => ?_) rows).symm
  by_cases one : w.key = v.key
  · rw [List.inj_on_of_nodup_map distinct member member' one]
  · exact apply_comm stamp rows one

-- The rows after some writes, key by key. The last write to a key decides what stands there.
structure Left (stamp : Versionstamp) (writes : List Mutation) (m m' : Memory) : Prop where
  set : ∀ before key row after, writes = before ++ .set key row :: after →
    (∀ w ∈ after, w.key ≠ key) → m'.get? key = some ⟨key, row, stamp⟩
  deleted : ∀ before key after, writes = before ++ .delete key :: after →
    (∀ w ∈ after, w.key ≠ key) → m'.get? key = none
  kept : ∀ key, (∀ w ∈ writes, w.key ≠ key) → m'.get? key = m.get? key

theorem left_foldl (stamp : Versionstamp) (writes : List Mutation) (m : Memory) :
    Left stamp writes m ⟨writes.foldl (apply stamp) m.rows, stamp⟩ := by
  have found (key : Key) : get? ⟨writes.foldl (apply stamp) m.rows, stamp⟩ key =
      (settle stamp (m.rows.get? key) (Mutation.last? key writes)).map
        fun (row, stamp) => ⟨key, row, stamp⟩ := by
    rw [get?, get?_foldl_apply]
  refine ⟨fun before key row after split quiet => ?_, fun before key after split quiet => ?_,
    fun key unnamed => ?_⟩
  · let w : Mutation := .set key row
    have last : Mutation.last? w.key (before ++ w :: after) = some w.left? := Mutation.last?_split quiet
    rw [← split] at last
    rw [found, show Mutation.last? key writes = _ from last]
    rfl
  · let w : Mutation := .delete key
    have last : Mutation.last? w.key (before ++ w :: after) = some w.left? := Mutation.last?_split quiet
    rw [← split] at last
    rw [found, show Mutation.last? key writes = _ from last]
    rfl
  · rw [found, Mutation.last?_eq_none_iff.mpr unnamed]
    rfl

-- What becomes of an operation, by the state that it meets.
structure Settles (m : Memory) (op : Operation) : Prop where
  refused : (∃ c ∈ op.checks, m.stamp? c.key ≠ c.expected) → m.commit op = (.ok none, m)
  exhausted : m.Passes op → m.version = .last →
    m.commit op = (.error (.versionstamp .overflow), m)
  -- A version that is no counter has no next one either; no call of a store leads to it.
  uncounted : m.Passes op → (∀ n, m.version ≠ .ofCounter n) →
    m.commit op = (.error (.versionstamp .overflow), m)
  committed : m.Passes op → ∀ n, m.version = .ofCounter n → m.version ≠ .last →
    ∃ m', m.commit op = (.ok (some m'.version), m') ∧ m'.version = .ofCounter (n + 1) ∧
      (n + 1).toNat = n.toNat + 1 ∧ Left m'.version op.mutations m m'
  reordered : ∀ checks, checks.Perm op.checks → m.commit ⟨checks, op.mutations⟩ = m.commit op
  swapped : ∀ before w v after, op.mutations = before ++ w :: v :: after → w.key ≠ v.key →
    m.commit ⟨op.checks, before ++ v :: w :: after⟩ = m.commit op
  disputed : ∀ c ∈ op.checks, ∀ c' ∈ op.checks, c.key = c'.key → c.expected ≠ c'.expected →
    m.commit op = (.ok none, m)

theorem commit_settles (m : Memory) (op : Operation) : m.Settles op where
  refused := by
    rintro ⟨c, member, differs⟩
    exact commit_refused fun passes => differs (passes c member)
  exhausted passes full := by
    rw [commit_passed passes, full, Versionstamp.last, Versionstamp.next_ofCounter]
    rfl
  uncounted passes foreign := by
    rw [commit_passed passes, Versionstamp.next_uncounted foreign]
  committed passes n counted room := by
    obtain ⟨next, more⟩ := Versionstamp.next_ofCounter_of_ne (counted ▸ room)
    refine ⟨⟨op.mutations.foldl (apply (.ofCounter (n + 1))) m.rows, .ofCounter (n + 1)⟩, ?_, rfl,
      more, left_foldl _ _ m⟩
    rw [commit_passed passes, counted, next]
  reordered checks same := commit_congr (fun _ => same.mem_iff) fun _ => rfl
  swapped before w v after split apart := by
    refine commit_congr (fun _ => .rfl) fun stamp => ?_
    rw [split]
    exact foldl_apply_swap stamp m.rows before after apart
  disputed c member c' member' same differ := by
    refine commit_refused fun passes => differ ?_
    rw [← passes c member, ← passes c' member', same]

end RowGraph.Memory
