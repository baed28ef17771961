import RowGraph.Proofs.Store.Writes
import RowGraph.Proofs.Versionstamp.Counter
/-!
A store with its history. A chronicle keeps every call and its answer, oldest first, and otherwise
behaves as the store does; the rows that stand in the store are those that the successful commits of
the history leave, and every read has answered with what stood at its moment.
-/

namespace RowGraph

inductive Call where
  | get (key : Key)
  | commit (op : Operation)

inductive Event where
  | got (key : Key) (answer : Except StoreError (Option Entry))
  | committed (op : Operation) (answer : Except StoreError (Option Versionstamp))

-- A commit that went through, with its stamp.
abbrev Success := Operation × Versionstamp

def Event.success? : Event → Option Success
  | .committed op (.ok (some stamp)) => some (op, stamp)
  | _ => none

def successes (events : List Event) : List Success := events.filterMap Event.success?

-- What stands at a key after some successful commits, the oldest first.
def standing (key : Key) (done : List Success) : Option Stamped :=
  done.foldl (fun old d => settle d.2 old (d.1.last? key)) none

def Entry.ofStamped (key : Key) (s : Stamped) : Entry := ⟨key, s.1, s.2⟩

theorem successes_append (before after : List Event) :
    successes (before ++ after) = successes before ++ successes after := List.filterMap_append

theorem standing_append (key : Key) (done : List Success) (d : Success) :
    standing key (done ++ [d]) = settle d.2 (standing key done) (d.1.last? key) := by
  simp [standing]

theorem standing_eq_some {key : Key} {done : List Success} {row : Row} {stamp : Versionstamp}
    (stands : standing key done = some (row, stamp)) :
    ∃ before op after, done = before ++ (op, stamp) :: after ∧ op.last? key = some (some row) ∧
      ∀ d ∈ after, ¬ d.1.Writes key := by
  induction done using List.reverseRecOn with
  | nil => cases stands
  | append_singleton done d ih =>
    obtain ⟨op, v⟩ := d
    rw [standing_append] at stands
    cases wrote : op.last? key with
    | none =>
      have earlier : standing key done = some (row, stamp) := by simpa [wrote, settle] using stands
      obtain ⟨before, setter, after, rfl, left, quiet⟩ := ih earlier
      refine ⟨before, setter, after ++ [(op, v)], by simp, left, ?_⟩
      intro d member
      rcases List.mem_append.mp member with old | new
      · exact quiet d old
      · obtain rfl := List.mem_singleton.mp new
        exact Operation.last?_eq_none_iff.mp wrote
    | some left =>
      cases left with
      | none => simp [wrote, settle] at stands
      | some left =>
        obtain ⟨rfl, rfl⟩ : left = row ∧ v = stamp := by simpa [wrote, settle] using stands
        exact ⟨done, op, [], rfl, wrote, by simp⟩

theorem standing_quiet {key : Key} (done after : List Success)
    (quiet : ∀ d ∈ after, ¬ d.1.Writes key) : standing key (done ++ after) = standing key done := by
  induction after using List.reverseRecOn with
  | nil => simp
  | append_singleton after d ih =>
    rw [← List.append_assoc, standing_append,
      Operation.last?_eq_none_iff.mpr (quiet d (by simp)), settle]
    exact ih fun e member => quiet e (List.mem_append_left _ member)

structure Chronicle where
  memory : Memory := .empty
  events : List Event := []

namespace Chronicle

def get (key : Key) (c : Chronicle) : Except StoreError (Option Entry) × Chronicle :=
  let (answer, memory) := Memory.backend.get key c.memory
  (answer, ⟨memory, c.events ++ [.got key answer]⟩)

def commit (op : Operation) (c : Chronicle) : Except StoreError (Option Versionstamp) × Chronicle :=
  let (answer, memory) := Memory.backend.commit op c.memory
  (answer, ⟨memory, c.events ++ [.committed op answer]⟩)

def backend : Backend Chronicle := ⟨get, commit⟩

def perform (c : Chronicle) : Call → Chronicle
  | .get key => (c.get key).2
  | .commit op => (c.commit op).2

-- All that has become of an empty store.
def run (calls : List Call) : Chronicle := calls.foldl perform {}

def done (c : Chronicle) : List Success := successes c.events

-- The version counts the successful commits, each of them has its own number as its stamp, and rows
-- and reads are those of the history.
structure Sound (c : Chronicle) : Prop where
  small : c.done.length < 0x10000000000000000
  version : c.memory.version = .ofCounter (.ofNat c.done.length)
  stamps : ∀ (i : Nat) (d : Success), c.done[i]? = some d → d.2 = .ofCounter (.ofNat (i + 1))
  rows : ∀ key, c.memory.rows.get? key = standing key c.done
  reads : ∀ (i : Nat) (key : Key) (answer : Except StoreError (Option Entry)),
    c.events[i]? = some (.got key answer) →
      answer = .ok ((standing key (successes (c.events.take i))).map (Entry.ofStamped key))

theorem sound_start : Sound {} where
  small := by decide
  version := rfl
  stamps := by simp [done, successes]
  rows := by intro key; rfl
  reads := by simp

-- Looking at something that was there before, or at what is new.
theorem getElem?_snoc {xs : List α} {x found : α} {i : Nat} (at_ : (xs ++ [x])[i]? = some found) :
    (xs[i]? = some found ∧ i < xs.length) ∨ (i = xs.length ∧ found = x) := by
  rcases Nat.lt_trichotomy i xs.length with old | same | beyond
  · rw [List.getElem?_append_left old] at at_
    exact .inl ⟨at_, old⟩
  · subst same
    exact .inr ⟨rfl, by simpa using at_.symm⟩
  · rw [List.getElem?_eq_none (by simp; omega)] at at_
    cases at_

-- Reads stay right when an event is added that says the truth about the current rows.
theorem Sound.reads_snoc {c : Chronicle} (sound : c.Sound) {e : Event}
    (truth : ∀ key answer, e = .got key answer →
      answer = .ok ((standing key c.done).map (Entry.ofStamped key)))
    (i : Nat) (key : Key) (answer : Except StoreError (Option Entry))
    (found : (c.events ++ [e])[i]? = some (.got key answer)) :
    answer = .ok ((standing key (successes ((c.events ++ [e]).take i))).map
      (Entry.ofStamped key)) := by
  obtain ⟨old, inside⟩ | ⟨rfl, new⟩ := getElem?_snoc found
  · rw [List.take_append_of_le_length (Nat.le_of_lt inside)]
    exact sound.reads i key answer old
  · rw [List.take_left]
    exact truth key answer new.symm

-- An event that is no successful commit adds nothing to the history of the rows.
theorem Sound.keep {c : Chronicle} (sound : c.Sound) {e : Event} (failed : e.success? = none)
    (truth : ∀ key answer, e = .got key answer →
      answer = .ok ((standing key c.done).map (Entry.ofStamped key))) :
    Sound ⟨c.memory, c.events ++ [e]⟩ := by
  have same : done ⟨c.memory, c.events ++ [e]⟩ = c.done := by
    simp [done, successes, failed]
  exact ⟨by rw [same]; exact sound.small, by rw [same]; exact sound.version,
    by rw [same]; exact sound.stamps, by rw [same]; exact sound.rows, sound.reads_snoc truth⟩

theorem Sound.get {c : Chronicle} (sound : c.Sound) (key : Key) : (c.get key).2.Sound := by
  refine sound.keep (e := .got key (.ok (c.memory.get? key))) rfl ?_
  intro asked answer equal
  cases equal
  rw [← sound.rows]
  rfl

theorem Sound.succeed {c : Chronicle} (sound : c.Sound) {op : Operation} {stamp : Versionstamp}
    {m : Memory} (went : c.memory.commit op = (.ok (some stamp), m)) :
    Sound ⟨m, c.events ++ [.committed op (.ok (some stamp))]⟩ := by
  obtain ⟨_, stepped, versioned, rows⟩ := Memory.commit_ok went
  have more : done ⟨m, c.events ++ [.committed op (.ok (some stamp))]⟩ = c.done ++ [(op, stamp)] := by
    simp [done, successes, Event.success?]
  have count : (UInt64.ofNat c.done.length).toNat = c.done.length := by
    rw [UInt64.toNat_ofNat']
    exact Nat.mod_eq_of_lt sound.small
  rw [sound.version, Versionstamp.next_ofCounter, count] at stepped
  split at stepped
  · rename_i room
    obtain rfl := Except.ok.inj stepped
    have next : UInt64.ofNat c.done.length + 1 = UInt64.ofNat (c.done.length + 1) := by simp
    refine ⟨by rw [more]; simpa using room, ?_, ?_, ?_, sound.reads_snoc (by intro _ _ h; cases h)⟩
    · rw [more, versioned, next]; simp
    · intro i d found
      rw [more] at found
      obtain ⟨old, _⟩ | ⟨rfl, new⟩ := getElem?_snoc found
      · exact sound.stamps i d old
      · rw [new, next]
    · intro key
      rw [more, standing_append, rows, sound.rows]
  · cases stepped

theorem Sound.commit {c : Chronicle} (sound : c.Sound) (op : Operation) :
    (c.commit op).2.Sound := by
  obtain ⟨_, went⟩ | ⟨_, e, _, went⟩ | ⟨_, stamp, _, went⟩ := Memory.commit_cases c.memory op
  · simpa [Chronicle.commit, Memory.backend, went] using
      sound.keep (e := .committed op (.ok none)) rfl (by intro _ _ h; cases h)
  · simpa [Chronicle.commit, Memory.backend, went] using
      sound.keep (e := .committed op (.error (.versionstamp e))) rfl (by intro _ _ h; cases h)
  · simpa [Chronicle.commit, Memory.backend, went] using sound.succeed went

theorem Sound.perform {c : Chronicle} (sound : c.Sound) (call : Call) : (c.perform call).Sound := by
  cases call with
  | get key => exact sound.get key
  | commit op => exact sound.commit op

theorem sound_run (calls : List Call) : (run calls).Sound := by
  unfold run
  induction calls using List.reverseRecOn with
  | nil => exact sound_start
  | append_singleton calls call ih =>
    rw [List.foldl_append]
    exact ih.perform call

end Chronicle

end RowGraph
