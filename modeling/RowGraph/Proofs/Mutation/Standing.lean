import RowGraph.Proofs.Mutation.Transaction
import RowGraph.Proofs.Value.Stored
/-!
What stands in the store after a commit. A mutation that has been given a stamp has written all of
its items; the row of a created or updated item is then the one that the item describes, whatever
stood there before, and a column that the item does not give stands empty. Main statement: the last
item that names a row leaves its own columns there.
-/

namespace RowGraph

namespace Value

variable {members : List (String × Datum)} {columns : List (String × Value)} {name : String}

theorem ofDatumMembers_forall₂ (stored : ofDatumMembers members = .ok columns) :
    List.Forall₂ (fun m c => m.1 = c.1 ∧ ofDatum m.2 = .ok c.2) members columns := by
  induction members generalizing columns with
  | nil =>
    obtain rfl := Except.ok.inj stored
    exact .nil
  | cons m rest ih =>
    obtain ⟨v, first, stored⟩ := Document.bind_ok stored
    obtain ⟨later, others, stored⟩ := Document.bind_ok stored
    obtain rfl := Except.ok.inj stored
    exact .cons ⟨rfl, first⟩ (ih others)

theorem column?_stored (stored : ofDatumMembers members = .ok columns) (name : String) :
    Option.Rel (fun d v => ofDatum d = .ok v) (Members.final? name members)
      ((Row.ofColumns columns).column? name) := by
  rw [Row.column?_ofColumns]
  exact Members.final?_rel (ofDatumMembers_forall₂ stored) name

-- Only a null stands for nothing.
theorem nullish_shows {d : Datum} {v : Value} (keeps : Keeps d v) (nullish : v.isNullish = true) :
    d = .null := by
  obtain ⟨shown, made, shows⟩ := keeps
  have null : shown = .null := by
    cases v <;> first | exact (Except.ok.inj made).symm | cases nullish
  subst null
  cases shows with
  | null => rfl
  | text _ absurd => cases absurd

theorem stored?_given (stored : ofDatumMembers members = .ok columns) {d : Datum}
    (precise : d.Exact) (given : Members.final? name members = some d) (present : d ≠ .null) :
    ∃ v, Resolve.stored? (Row.ofColumns columns) name = some v ∧ Keeps d v := by
  have column := column?_stored stored name
  rw [given] at column
  generalize found : (Row.ofColumns columns).column? name = stands at column
  cases column with
  | @some _ v made =>
    have keeps := keeps_ofDatum precise made
    refine ⟨v, ?_, keeps⟩
    unfold Resolve.stored?
    rw [found]
    exact if_neg fun nullish => present (nullish_shows keeps nullish)

theorem stored?_absent (stored : ofDatumMembers members = .ok columns)
    (absent : Members.final? name members = .none ∨ Members.final? name members = some .null) :
    Resolve.stored? (Row.ofColumns columns) name = .none := by
  have column := column?_stored stored name
  unfold Resolve.stored?
  rcases absent with missing | null
  · rw [missing] at column
    generalize (Row.ofColumns columns).column? name = stands at column
    cases column
    rfl
  · rw [null] at column
    generalize (Row.ofColumns columns).column? name = stands at column
    cases column with
    | some made =>
      obtain rfl := Except.ok.inj made
      rfl

end Value

namespace Commit

variable {b : Binding} {item : Item} {rid : RowId}

theorem Asks.key {d : Datum} {w : Demand} (asks : Asks b d w) :
    ∃ item rid, d = .object item ∧ named? item = some rid ∧ w.key = ⟨b.table, rid⟩ := by
  cases asks with
  | create _ named _ => exact ⟨_, _, rfl, named, rfl⟩
  | update _ named _ _ _ => exact ⟨_, _, rfl, named, rfl⟩
  | delete _ named _ _ => exact ⟨_, _, rfl, named, rfl⟩

-- An item that is not to be deleted leaves a row of its columns.
theorem Asks.leaves {w : Demand} (asks : Asks b (.object item) w) (kind : b.op ≠ .delete)
    (named : named? item = some rid) : w.key = ⟨b.table, rid⟩ ∧ ∃ row,
      Value.ofDatumMembers (columns item) = .ok row ∧ w.left? = some (Row.ofColumns row) := by
  cases asks with
  | create _ named' stored =>
    obtain rfl := Option.some.inj (named'.symm.trans named)
    exact ⟨rfl, _, stored, rfl⟩
  | update _ named' _ _ stored =>
    obtain rfl := Option.some.inj (named'.symm.trans named)
    exact ⟨rfl, _, stored, rfl⟩
  | delete deletes _ _ _ => exact absurd deletes kind

theorem AllAsk.split {before after : List (Binding × Datum)} {ws : List Demand}
    (asks : AllAsk (before ++ after) ws) :
    ∃ first rest, ws = first ++ rest ∧ AllAsk before first ∧ AllAsk after rest := by
  induction before generalizing ws with
  | nil => exact ⟨[], ws, rfl, .nil, asks⟩
  | cons _ _ ih =>
    cases asks with
    | @cons _ w _ _ own later =>
      obtain ⟨first, rest, rfl, earlier, asks⟩ := ih later
      exact ⟨w :: first, rest, rfl, .cons own earlier, asks⟩

variable {plan : MutationPlan} {arguments : Arguments} {input : List (String × Datum)}
  {r r' : Run Memory} {o : Outcome}

-- A stamp is answered just for a commit of all items that has gone through.
theorem commit_of_stamped {listed : List (Binding × Datum)}
    (given : Members.get? plan.argument arguments = some (.object input))
    (lists : Listed input plan.bindings listed)
    (committed : (mutation Memory.backend plan arguments).run r = (.ok (some o), r')) :
    ∃ ws stamp, AllAsk listed ws ∧ o = result plan stamp ∧
      r.store.commit (ws.foldl ask {}) = (.ok (some stamp), r'.store) := by
  obtain ⟨ws, asks⟩ | ⟨p, flaw⟩ := allAsk_or_flaw listed
  · rw [mutation_of_asks given lists asks] at committed
    split at committed
    · cases committed
    · generalize answer : r.store.commit (ws.foldl ask {}) = sent at committed
      obtain ⟨e | _ | stamp, m'⟩ := sent
      · cases committed
      · cases committed
      · cases committed
        exact ⟨ws, stamp, asks, rfl, answer⟩
  · rw [mutation_eq Memory.backend given, operation, ← lists.eq_items, addItems_of_flaw flaw]
      at committed
    cases committed

-- What has been given a stamp has been written.
theorem written_of_stamped {listed : List (Binding × Datum)}
    (given : Members.get? plan.argument arguments = some (.object input))
    (lists : Listed input plan.bindings listed)
    (committed : (mutation Memory.backend plan arguments).run r = (.ok (some o), r')) :
    ∃ ws stamp, AllAsk listed ws ∧ Written ws stamp r.store r'.store := by
  obtain ⟨ws, stamp, asks, _, sent⟩ := commit_of_stamped given lists committed
  exact ⟨ws, stamp, asks, written_of_commit sent⟩

theorem stands_of_stamped {before after : List (Binding × Datum)}
    (given : Members.get? plan.argument arguments = some (.object input))
    (lists : Listed input plan.bindings (before ++ (b, .object item) :: after))
    (kind : b.op ≠ .delete) (named : named? item = some rid)
    (last : ∀ i ∈ after, ∀ other, i.2 = .object other → i.1.table = b.table →
      named? other ≠ some rid)
    (committed : (mutation Memory.backend plan arguments).run r = (.ok (some o), r')) :
    ∃ row stamp, Value.ofDatumMembers (columns item) = .ok row ∧
      r'.store.get? ⟨b.table, rid⟩ = some ⟨⟨b.table, rid⟩, Row.ofColumns row, stamp⟩ := by
  obtain ⟨ws, stamp, asks, written⟩ := written_of_stamped given lists committed
  obtain ⟨first, rest, rfl, _, remaining⟩ := asks.split
  cases remaining with
  | @cons _ w _ ws' own others =>
    obtain ⟨key, row, stored, left⟩ := own.leaves kind named
    have quiet (w' : Demand) (member : w' ∈ ws') : w'.key ≠ w.key := by
      intro same
      obtain ⟨i, listed, asks'⟩ := mem_of_forall₂ others.flip member
      obtain ⟨other, rid', object, named', key'⟩ := asks'.key
      rw [same, key] at key'
      obtain ⟨table, rfl⟩ := Key.mk.inj key'
      exact last i listed other object table.symm named'
    have stands := written.last first w ws' rfl quiet
    rw [key, left] at stands
    refine ⟨row, stamp, stored, ?_⟩
    rw [Memory.get?, stands]
    rfl

end Commit

end RowGraph
