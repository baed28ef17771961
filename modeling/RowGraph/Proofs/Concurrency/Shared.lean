import RowGraph.Proofs.Propagation.Sending
import RowGraph.Proofs.Store.History
/-!
A store that several requests share. Each of them meets it only through its calls, and before every
call that a request makes the others may make any calls of theirs. Main statement: what is sent
under the stamp of an earlier read goes through just if nobody has written the row in between.
-/

namespace RowGraph

namespace Chronicle

-- Some calls lead from one history to a longer one.
def Grows (c c' : Chronicle) : Prop := ∃ calls : List Call, c' = calls.foldl perform c

namespace Grows

variable {c c' c'' : Chronicle}

theorem refl : Grows c c := ⟨[], rfl⟩

theorem performs (calls : List Call) : Grows c (calls.foldl perform c) := ⟨calls, rfl⟩

theorem trans (first : Grows c c') (second : Grows c' c'') : Grows c c'' := by
  obtain ⟨calls, rfl⟩ := first
  obtain ⟨calls', rfl⟩ := second
  exact ⟨calls ++ calls', by rw [List.foldl_append]⟩

theorem sound (grows : Grows c c') (sound : c.Sound) : c'.Sound := by
  obtain ⟨calls, rfl⟩ := grows
  induction calls generalizing c with
  | nil => exact sound
  | cons call rest ih => exact ih (sound.perform call)

theorem events (grows : Grows c c') : ∃ more, c'.events = c.events ++ more := by
  obtain ⟨calls, rfl⟩ := grows
  induction calls generalizing c with
  | nil => exact ⟨[], (List.append_nil _).symm⟩
  | cons call rest ih =>
    obtain ⟨more, longer⟩ := ih (c := c.perform call)
    cases call with
    | get key => exact ⟨_ :: more, longer.trans (List.append_assoc _ _ _)⟩
    | commit op => exact ⟨_ :: more, longer.trans (List.append_assoc _ _ _)⟩

theorem event (grows : Grows c c') {n : Nat} {e : Event} (found : c.events[n]? = some e) :
    c'.events[n]? = some e := by
  obtain ⟨more, longer⟩ := grows.events
  have inside : n < c.events.length := (List.getElem?_eq_some_iff.mp found).1
  rw [longer, List.getElem?_append_left inside]
  exact found

-- All that becomes of a history through a backend are calls.
theorem of_moves (moves : Moves backend c c') : Grows c c' :=
  moves.keeps (Grows c) (fun key _ grows => grows.trans ⟨[.get key], rfl⟩)
    (fun op _ grows => grows.trans ⟨[.commit op], rfl⟩) refl

end Grows

end Chronicle

structure Shared where
  chronicle : Chronicle
  -- What the others do before each of the next calls; after that they rest.
  others : List (List Call) := []

namespace Shared

def turn (s : Shared) : Shared :=
  match s.others with
  | [] => s
  | calls :: rest => ⟨calls.foldl Chronicle.perform s.chronicle, rest⟩

-- Where the next own call stands in the history.
def now (s : Shared) : Nat := s.turn.chronicle.events.length

def get (key : Key) (s : Shared) : Except StoreError (Option Entry) × Shared :=
  ((s.turn.chronicle.get key).1, { s.turn with chronicle := (s.turn.chronicle.get key).2 })

def commit (op : Operation) (s : Shared) : Except StoreError (Option Versionstamp) × Shared :=
  ((s.turn.chronicle.commit op).1, { s.turn with chronicle := (s.turn.chronicle.commit op).2 })

def backend : Backend Shared := ⟨get, commit⟩

theorem turn_grows (s : Shared) : s.chronicle.Grows s.turn.chronicle := by
  unfold turn
  split
  · exact .refl
  · exact .performs _

theorem grows {s s' : Shared} (moves : Moves backend s s') : s.chronicle.Grows s'.chronicle := by
  refine moves.keeps (fun t => s.chronicle.Grows t.chronicle) ?_ ?_ .refl
  · intro key t grows
    exact (grows.trans t.turn_grows).trans ⟨[.get key], rfl⟩
  · intro op t grows
    exact (grows.trans t.turn_grows).trans ⟨[.commit op], rfl⟩

theorem event_get {s : Shared} {key : Key} {answer : Except StoreError (Option Entry)}
    (asked : (backend.get key s).1 = answer) :
    (backend.get key s).2.chronicle.events[s.now]? = some (.got key answer) := by
  subst asked
  exact List.getElem?_concat_length

-- An operation that is sent under the stamp of an earlier read: both stand in one history, and while
-- the counter has room the operation goes through just if nobody has written the row in between.
structure Guards (key : Key) (e : Entry) (op : Operation) (t t' : Shared) : Prop where
  read : t'.turn.chronicle.events[t.now]? = some (.got key (.ok (some e)))
  before : t.now < t'.now
  checks : op.checks = [⟨key, some e.stamp⟩]
  writes : op.Writes key
  decided : t'.turn.chronicle.memory.version ≠ .last →
    ((∃ stamp, (backend.commit op t').1 = .ok (some stamp)) ↔
      ∀ n op' stamp, t.now < n → n < t'.now →
        t'.turn.chronicle.events[n]? = some (.committed op' (.ok (some stamp))) → ¬ op'.Writes key)

theorem guards {key : Key} {e : Entry} {op : Operation} {t t' : Shared}
    (sound : t.chronicle.Sound) (found : (backend.get key t).1 = .ok (some e))
    (later : (backend.get key t).2.chronicle.Grows t'.chronicle)
    (checks : op.checks = [⟨key, some e.stamp⟩]) (writes : op.Writes key) :
    Guards key e op t t' := by
  have grows := later.trans t'.turn_grows
  have read := grows.event (event_get found)
  have sound' : t'.turn.chronicle.Sound := grows.sound ((t.turn_grows.sound sound).get key)
  refine ⟨read, (List.getElem?_eq_some_iff.mp read).1, checks, writes, fun room => ?_⟩
  refine (sound'.guarded read checks room).trans ⟨?_, ?_⟩
  · intro quiet n op' stamp after _ there
    exact quiet n op' stamp after there
  · intro quiet n op' stamp after there
    exact quiet n op' stamp after (List.getElem?_eq_some_iff.mp there).1 there

end Shared

end RowGraph
