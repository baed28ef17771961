import RowGraph.Proofs.Store.Chronicle
/-!
The history of an in-memory store. Main statement: over any run of commits and reads the version is
the number of successful commits, a row carries the number of the commit that last set it, stamps
only grow, and two reads of a key that show one stamp show one row, with no write to the key between
them.
-/

namespace RowGraph

-- Stamps that number the commits from one on.
def Numbered (done : List Success) : Prop :=
  done.length < 0x10000000000000000 ∧
    ∀ (i : Nat) (d : Success), done[i]? = some d → d.2 = .ofCounter (.ofNat (i + 1))

namespace Numbered

theorem position {done : List Success} (numbered : Numbered done) {i j : Nat} {d e : Success}
    (left : done[i]? = some d) (right : done[j]? = some e) (same : d.2 = e.2) : i = j := by
  have inside : i < done.length := (List.getElem?_eq_some_iff.mp left).1
  have inside' : j < done.length := (List.getElem?_eq_some_iff.mp right).1
  have bound := numbered.1
  rw [numbered.2 i d left, numbered.2 j e right] at same
  have values := congrArg UInt64.toNat (Versionstamp.ofCounter_injective same)
  simp only [UInt64.toNat_ofNat'] at values
  rw [Nat.mod_eq_of_lt (by omega), Nat.mod_eq_of_lt (by omega)] at values
  omega

theorem increasing {done : List Success} (numbered : Numbered done) :
    (done.map (·.2)).Pairwise fun a b => compare a b = .lt := by
  rw [List.pairwise_map, List.pairwise_iff_getElem]
  intro i j hi hj less
  have bound := numbered.1
  rw [numbered.2 i done[i] (List.getElem?_eq_getElem hi),
    numbered.2 j done[j] (List.getElem?_eq_getElem hj), Versionstamp.compare_ofCounter]
  simp only [UInt64.toNat_ofNat']
  rw [Nat.mod_eq_of_lt (by omega), Nat.mod_eq_of_lt (by omega)]
  omega

-- A stamp that still stands after some commits stood before them only if none of them wrote the key.
theorem quiet_of_same_stamp {key : Key} {done after : List Success} {row row' : Row}
    {stamp : Versionstamp} (numbered : Numbered (done ++ after))
    (stood : standing key done = some (row, stamp))
    (stands : standing key (done ++ after) = some (row', stamp)) :
    ∀ d ∈ after, ¬ d.1.Writes key := by
  obtain ⟨before, op, rest, split, -, -⟩ := standing_eq_some stood
  obtain ⟨before', op', rest', split', -, quiet⟩ := standing_eq_some stands
  have first : (done ++ after)[before.length]? = some (op, stamp) := by simp [split]
  have second : (done ++ after)[before'.length]? = some (op', stamp) := by simp [split']
  have meet : before.length = before'.length := numbered.position first second rfl
  have inside : before'.length < done.length := by rw [← meet, split]; simp
  intro d member
  refine quiet d ?_
  -- The later commits lie behind the one that has set the row.
  have tail : after = ((done ++ after).drop (before'.length + 1)).drop
      (done.length - (before'.length + 1)) := by
    rw [List.drop_drop, show before'.length + 1 + (done.length - (before'.length + 1)) = done.length
      by omega, List.drop_left]
  rw [tail, split'] at member
  have behind := List.mem_of_mem_drop member
  rwa [show before' ++ (op', stamp) :: rest' = (before' ++ [(op', stamp)]) ++ rest' by simp,
    List.drop_left' (by simp)] at behind

end Numbered

namespace Chronicle

theorem Sound.numbered {c : Chronicle} (sound : c.Sound) : Numbered c.done :=
  ⟨sound.small, sound.stamps⟩

theorem Sound.numbered_take {c : Chronicle} (sound : c.Sound) (i : Nat) :
    Numbered (successes (c.events.take i)) := by
  have whole : c.done = successes (c.events.take i) ++ successes (c.events.drop i) := by
    rw [← successes_append, List.take_append_drop, done]
  refine ⟨?_, fun j d found => sound.stamps j d ?_⟩
  · have bound := sound.small
    rw [whole, List.length_append] at bound
    omega
  · rw [whole]
    exact List.getElem?_append_left (List.getElem?_eq_some_iff.mp found).1 ▸ found

theorem Sound.setter {c : Chronicle} (sound : c.Sound) {key : Key} {e : Entry}
    (stored : c.memory.get? key = some e) :
    ∃ k op, 1 ≤ k ∧ k ≤ c.done.length ∧ e.stamp = .ofCounter (.ofNat k) ∧
      c.done[k - 1]? = some (op, e.stamp) ∧ op.last? key = some (some e.row) ∧
      ∀ (j : Nat) (d : Success), k ≤ j → c.done[j]? = some d → ¬ d.1.Writes key := by
  unfold Memory.get? at stored
  rw [sound.rows] at stored
  obtain ⟨⟨row, stamp⟩, stands, rfl⟩ := Option.map_eq_some_iff.mp stored
  obtain ⟨before, op, after, split, left, quiet⟩ := standing_eq_some stands
  have place : c.done[before.length]? = some (op, stamp) := by simp [split]
  refine ⟨before.length + 1, op, by omega, ?_, sound.stamps _ _ place, place, left, ?_⟩
  · rw [split]; simp
  · intro j d beyond found
    refine quiet d ?_
    rw [split, List.getElem?_append_right (by omega)] at found
    rw [show j - before.length = (j - before.length - 1) + 1 by omega, List.getElem?_cons_succ] at found
    exact List.mem_of_getElem? found

theorem Sound.reread {c : Chronicle} (sound : c.Sound) {i j : Nat} {key : Key} {e e' : Entry}
    (order : i < j) (first : c.events[i]? = some (.got key (.ok (some e))))
    (second : c.events[j]? = some (.got key (.ok (some e')))) (same : e.stamp = e'.stamp) :
    e.row = e'.row ∧ ∀ n op stamp, i < n → n < j →
      c.events[n]? = some (.committed op (.ok (some stamp))) → ¬ op.Writes key := by
  obtain ⟨⟨row, stamp⟩, stood, rfl⟩ :=
    Option.map_eq_some_iff.mp (Except.ok.inj (sound.reads i key _ first)).symm
  obtain ⟨⟨row', stamp'⟩, stands, rfl⟩ :=
    Option.map_eq_some_iff.mp (Except.ok.inj (sound.reads j key _ second)).symm
  obtain rfl : stamp = stamp' := same
  -- What happened up to the second read is what happened up to the first, and more.
  have split : c.events.take j = c.events.take i ++ (c.events.take j).drop i := by
    have cut := (List.take_append_drop i (c.events.take j)).symm
    rwa [List.take_take, Nat.min_eq_left (by omega)] at cut
  have numbered := sound.numbered_take j
  rw [split, successes_append] at stands numbered
  have quiet := numbered.quiet_of_same_stamp stood stands
  refine ⟨?_, ?_⟩
  · rw [standing_quiet _ _ quiet, stood] at stands
    exact congrArg Prod.fst (Option.some.inj stands)
  · intro n op stamp' after before found
    have later : ((c.events.take j).drop i)[n - i]? = some (.committed op (.ok (some stamp'))) := by
      rw [List.getElem?_drop, show i + (n - i) = n by omega, List.getElem?_take, if_pos before]
      exact found
    exact quiet (op, stamp') (List.mem_filterMap.mpr ⟨_, List.mem_of_getElem? later, rfl⟩)

theorem mem_successes_drop {events : List Event} {i : Nat} {d : Success} :
    d ∈ successes (events.drop i) ↔
      ∃ n, i ≤ n ∧ events[n]? = some (.committed d.1 (.ok (some d.2))) := by
  obtain ⟨op, stamp⟩ := d
  have shown (e : Event) : e.success? = some (op, stamp) ↔ e = .committed op (.ok (some stamp)) := by
    unfold Event.success?
    split
    · simp
    · rename_i other
      simpa using fun same => other op stamp same
  unfold successes
  simp only [List.mem_filterMap, shown, exists_eq_right]
  simp only [List.mem_iff_getElem?, List.getElem?_drop]
  constructor
  · rintro ⟨n, found⟩
    exact ⟨i + n, Nat.le_add_right i n, found⟩
  · rintro ⟨n, later, found⟩
    exact ⟨n - i, by rwa [show i + (n - i) = n by omega]⟩

theorem Sound.succeeds_iff {c : Chronicle} (sound : c.Sound) (room : c.memory.version ≠ .last)
    (op : Operation) : (∃ stamp, (c.memory.commit op).1 = .ok (some stamp)) ↔
      op.checks.all c.memory.holds = true := by
  obtain ⟨refused, went⟩ | ⟨holds, e, stepped, went⟩ | ⟨holds, stamp, _, went⟩ :=
    Memory.commit_cases c.memory op
  · simp [went, refused]
  · rw [sound.version] at stepped room
    exact absurd (Versionstamp.next_ofCounter_error stepped).2 room
  · simp [went, holds]

-- A commit that is sent under the stamp of an earlier read goes through just if nobody has written
-- the key since.
theorem Sound.guarded {c : Chronicle} (sound : c.Sound) {i : Nat} {key : Key} {e : Entry}
    (read : c.events[i]? = some (.got key (.ok (some e)))) {op : Operation}
    (checks : op.checks = [⟨key, some e.stamp⟩]) (room : c.memory.version ≠ .last) :
    (∃ stamp, (c.memory.commit op).1 = .ok (some stamp)) ↔
      ∀ n op' stamp, i < n → c.events[n]? = some (.committed op' (.ok (some stamp))) →
        ¬ op'.Writes key := by
  obtain ⟨⟨row, stamp⟩, stood, rfl⟩ :=
    Option.map_eq_some_iff.mp (Except.ok.inj (sound.reads i key _ read)).symm
  have split : c.done = successes (c.events.take i) ++ successes (c.events.drop i) := by
    rw [← successes_append, List.take_append_drop, done]
  have numbered := sound.numbered
  rw [split] at numbered
  have holds : op.checks.all c.memory.holds = true ↔
      (standing key c.done).map (·.2) = some stamp := by
    rw [checks, ← sound.rows, List.all_cons, List.all_nil, Bool.and_true]
    exact decide_eq_true_iff
  -- The read itself is no commit.
  have quiet : (∀ d ∈ successes (c.events.drop i), ¬ d.1.Writes key) ↔
      ∀ n op' stamp', i < n → c.events[n]? = some (.committed op' (.ok (some stamp'))) →
        ¬ op'.Writes key := by
    constructor
    · intro quiet n op' stamp' later found
      exact quiet (op', stamp') (mem_successes_drop.mpr ⟨n, Nat.le_of_lt later, found⟩)
    · intro quiet d member
      obtain ⟨n, later, found⟩ := mem_successes_drop.mp member
      rcases Nat.eq_or_lt_of_le later with rfl | later
      · cases read.symm.trans found
      · exact quiet n d.1 d.2 later found
  rw [sound.succeeds_iff room, holds, ← quiet, split]
  constructor
  · intro carries
    obtain ⟨⟨row', stamp'⟩, stands, same⟩ := Option.map_eq_some_iff.mp carries
    obtain rfl : stamp' = stamp := same
    exact numbered.quiet_of_same_stamp stood stands
  · intro quiet
    rw [standing_quiet _ _ quiet, stood]
    rfl

theorem Sound.overflow {c : Chronicle} (sound : c.Sound) {op : Operation} {e : StoreError}
    (failed : (c.memory.commit op).1 = .error e) :
    e = .versionstamp .overflow ∧ c.memory.version = .last := by
  obtain ⟨_, went⟩ | ⟨_, reason, stepped, went⟩ | ⟨_, stamp, _, went⟩ :=
    Memory.commit_cases c.memory op
  · rw [went] at failed; cases failed
  · rw [went] at failed
    obtain rfl := Except.error.inj failed
    rw [sound.version] at stepped ⊢
    obtain ⟨rfl, top⟩ := Versionstamp.next_ofCounter_error stepped
    exact ⟨rfl, top⟩
  · rw [went] at failed; cases failed

-- What clients of a store may rely on, at any moment of its life.
structure Orderly (c : Chronicle) : Prop where
  counted : c.done.length < 0x10000000000000000 ∧
    c.memory.version = .ofCounter (.ofNat c.done.length)
  -- A row carries the number of the successful commit that last set it; none after it wrote the key.
  numbered : ∀ key e, c.memory.get? key = some e →
    ∃ k op, 1 ≤ k ∧ k ≤ c.done.length ∧ e.stamp = .ofCounter (.ofNat k) ∧
      c.done[k - 1]? = some (op, e.stamp) ∧ op.last? key = some (some e.row) ∧
      ∀ (j : Nat) (d : Success), k ≤ j → c.done[j]? = some d → ¬ d.1.Writes key
  increasing : (c.done.map (·.2)).Pairwise fun a b => compare a b = .lt
  -- One stamp is one row, and nothing was written between two reads that show it.
  stable : ∀ (i j : Nat) key e e', i < j →
    c.events[i]? = some (.got key (.ok (some e))) →
    c.events[j]? = some (.got key (.ok (some e'))) → e.stamp = e'.stamp →
    e.row = e'.row ∧ ∀ (n : Nat) op stamp, i < n → n < j →
      c.events[n]? = some (.committed op (.ok (some stamp))) → ¬ op.Writes key
  overflow : ∀ op e, (c.memory.commit op).1 = .error e →
    e = .versionstamp .overflow ∧ c.memory.version = .last

theorem run_orderly (calls : List Call) : (run calls).Orderly := by
  have sound := sound_run calls
  exact {
    counted := ⟨sound.small, sound.version⟩
    numbered := fun _ _ stored => sound.setter stored
    increasing := sound.numbered.increasing
    stable := fun _ _ _ _ _ order first second same => sound.reread order first second same
    overflow := fun _ _ failed => sound.overflow failed }

end Chronicle

end RowGraph
