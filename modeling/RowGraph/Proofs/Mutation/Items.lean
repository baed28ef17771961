import Mathlib.Data.List.Forall2
import RowGraph.Execution.Commit
import RowGraph.Proofs.Store.Writes
import RowGraph.Proofs.Value.Binary
/-!
The items of a mutation. What a well-formed item asks for and what is wrong with any other is said
here without the operation that is collected; main statement: collecting the items either adds one
check and one write for each demand, in order, or stops at the first item with a flaw.
-/

namespace RowGraph

theorem Datum.asObject?_eq_some {d : Datum} {members : List (String × Datum)} :
    d.asObject? = some members ↔ d = .object members := by
  cases d <;> simp [asObject?]

namespace Commit

-- What a mutation looks for in its arguments.
theorem object_given {name : String} {arguments : List (String × Datum)}
    {input : List (String × Datum)} :
    (Members.get? name arguments).bind Datum.asObject? = some input ↔
      Members.get? name arguments = some (.object input) := by
  simp [Option.bind_eq_some_iff, Datum.asObject?_eq_some]

-- One row to write, guarded by what stands there: without a stamp nothing may.
structure Demand where
  key : Key
  expected : Option Versionstamp
  -- The row to set; without one the key is deleted.
  left? : Option Row

namespace Demand

def check (w : Demand) : Check := ⟨w.key, w.expected⟩

def write (w : Demand) : Mutation :=
  match w.left? with
  | some row => .set w.key row
  | none => .delete w.key

theorem write_key (w : Demand) : w.write.key = w.key := by
  unfold write
  cases w.left? <;> rfl

theorem write_left (w : Demand) : w.write.left? = w.left? := by
  unfold write
  cases left : w.left? <;> rfl

end Demand

-- The members of an item that become columns.
def columns (item : Item) : Item := item.filter fun m => m.1 ≠ idColumn && m.1 ≠ stampField

-- The row an item names; ids are texts or integers.
def named? (item : Item) : Option RowId := (Members.get? idColumn item).bind Resolve.idOfDatum?

-- The item is well formed and asks for this.
inductive Asks (b : Binding) : Datum → Demand → Prop where
  | create : b.op = .create → named? item = some rid →
      Value.ofDatumMembers (columns item) = .ok row →
      Asks b (.object item) ⟨⟨b.table, rid⟩, none, some (Row.ofColumns row)⟩
  | update : b.op = .update → named? item = some rid →
      Members.get? stampField item = some d → Versionstamp.ofDatum d = .ok stamp →
      Value.ofDatumMembers (columns item) = .ok row →
      Asks b (.object item) ⟨⟨b.table, rid⟩, some stamp, some (Row.ofColumns row)⟩
  | delete : b.op = .delete → named? item = some rid →
      Members.get? stampField item = some d → Versionstamp.ofDatum d = .ok stamp →
      Asks b (.object item) ⟨⟨b.table, rid⟩, some stamp, none⟩

-- The first thing that is wrong with an item. Stamps are looked at where the write needs one, and
-- columns where it stores them.
inductive Flawed (b : Binding) : Datum → ResolveProblem → Prop where
  | notObject : d.asObject? = none → Flawed b d (.itemNotAnObject b.field)
  | noId : named? item = none → Flawed b (.object item) (.itemWithoutId b.field)
  | noStamp : named? item = some rid → b.op ≠ .create →
      (Members.get? stampField item = none ∨ Members.get? stampField item = some .null) →
      Flawed b (.object item) (.itemWithoutVersionstamp b.field)
  | badStamp : named? item = some rid → b.op ≠ .create →
      Members.get? stampField item = some d → d ≠ .null → Versionstamp.ofDatum d = .error e →
      Flawed b (.object item) (.invalidVersionstamp d e.message)
  | binary : named? item = some rid → b.op ≠ .delete →
      (b.op = .update → ∃ d stamp, Members.get? stampField item = some d ∧
        Versionstamp.ofDatum d = .ok stamp) →
      (∃ m ∈ columns item, m.2.hasBinary = true) → Flawed b (.object item) .binaryInput

def ask (op : Operation) (w : Demand) : Operation :=
  ⟨op.checks ++ [w.check], op.mutations ++ [w.write]⟩

theorem foldl_ask (ws : List Demand) (op : Operation) :
    ws.foldl ask op =
      ⟨op.checks ++ ws.map Demand.check, op.mutations ++ ws.map Demand.write⟩ := by
  induction ws generalizing op with
  | nil => simp
  | cons w rest ih => rw [List.foldl_cons, ih]; simp [ask]

theorem itemId_eq (b : Binding) (item : Item) :
    itemId b item = match named? item with
      | some id => .ok id
      | none => .error (ResolveProblem.itemWithoutId b.field).error := rfl

theorem itemRow_eq (item : Item) :
    itemRow item = (Value.ofDatumMembers (columns item)).map Row.ofColumns := rfl

theorem itemStamp_ok {b : Binding} {item : Item} {d : Datum} {stamp : Versionstamp}
    (given : Members.get? stampField item = some d) (reads : Versionstamp.ofDatum d = .ok stamp) :
    itemStamp b item = .ok stamp := by
  unfold itemStamp
  rw [given]
  cases d with
  | null => cases reads
  | _ => simp only [reads]

theorem addItem_other {b : Binding} {d : Datum} (other : d.asObject? = none) (op : Operation) :
    addItem b op d = .error (ResolveProblem.itemNotAnObject b.field).error := by
  unfold addItem
  rw [other]
  rfl

-- What becomes of an item once its row is known.
def addTo (b : Binding) (op : Operation) (item : Item) (key : Key) : Except GraphError Operation :=
  match b.op with
  | .create => (itemRow item).bind fun row => .ok ((op.check key none).set key row)
  | .update =>
    (itemStamp b item).bind fun stamp => (itemRow item).bind fun row =>
      .ok ((op.check key (some stamp)).set key row)
  | .delete => (itemStamp b item).bind fun stamp => .ok ((op.check key (some stamp)).delete key)

theorem addItem_object (b : Binding) (op : Operation) (item : Item) :
    addItem b op (.object item) =
      (itemId b item).bind fun rid => addTo b op item ⟨b.table, rid⟩ := rfl

theorem addItem_unnamed {b : Binding} {item : Item} (unnamed : named? item = none)
    (op : Operation) :
    addItem b op (.object item) = .error (ResolveProblem.itemWithoutId b.field).error := by
  rw [addItem_object, itemId_eq, unnamed]
  rfl

theorem addItem_named {b : Binding} {item : Item} {rid : RowId} (named : named? item = some rid)
    (op : Operation) : addItem b op (.object item) = addTo b op item ⟨b.table, rid⟩ := by
  rw [addItem_object, itemId_eq, named]
  rfl

theorem addItem_of_asks {b : Binding} {d : Datum} {w : Demand} (asks : Asks b d w)
    (op : Operation) : addItem b op d = .ok (ask op w) := by
  cases asks with
  | create kind named row =>
    rw [addItem_named named, addTo, kind, itemRow_eq, row]
    rfl
  | update kind named given reads row =>
    rw [addItem_named named, addTo, kind, itemStamp_ok given reads, itemRow_eq, row]
    rfl
  | delete kind named given reads =>
    rw [addItem_named named, addTo, kind, itemStamp_ok given reads]
    rfl

theorem itemRow_binary {item : Item} (bytes : ∃ m ∈ columns item, m.2.hasBinary = true) :
    itemRow item = .error ResolveProblem.binaryInput.error := by
  have found : Datum.hasBinaryMembers (columns item) = true := by
    rw [Datum.hasBinaryMembers_eq_any, List.any_eq_true]
    exact bytes
  have stores := Value.ofDatumMembers_stores (columns item)
  rw [found] at stores
  rw [itemRow_eq, show Value.ofDatumMembers (columns item) = .error _ from stores]
  rfl

theorem itemStamp_missing {b : Binding} {item : Item}
    (none : Members.get? stampField item = none ∨ Members.get? stampField item = some .null) :
    itemStamp b item = .error (ResolveProblem.itemWithoutVersionstamp b.field).error := by
  unfold itemStamp
  rcases none with absent | null
  · rw [absent]
  · rw [null]

theorem itemStamp_bad {b : Binding} {item : Item} {d : Datum} {e : Versionstamp.DatumError}
    (given : Members.get? stampField item = some d) (present : d ≠ .null)
    (fails : Versionstamp.ofDatum d = .error e) :
    itemStamp b item = .error (ResolveProblem.invalidVersionstamp d e.message).error := by
  unfold itemStamp
  rw [given]
  cases d with
  | null => exact absurd rfl present
  | _ => simp only [fails]

theorem addItem_of_flawed {b : Binding} {d : Datum} {p : ResolveProblem} (flawed : Flawed b d p)
    (op : Operation) : addItem b op d = .error p.error := by
  cases flawed with
  | notObject other => exact addItem_other other op
  | noId unnamed => exact addItem_unnamed unnamed op
  | noStamp named kind missing =>
    rw [addItem_named named, addTo, itemStamp_missing missing]
    cases which : b.op with
    | create => exact absurd which kind
    | update => rfl
    | delete => rfl
  | badStamp named kind given present fails =>
    rw [addItem_named named, addTo, itemStamp_bad given present fails]
    cases which : b.op with
    | create => exact absurd which kind
    | update => rfl
    | delete => rfl
  | binary named kind stamped bytes =>
    rw [addItem_named named, addTo, itemRow_binary bytes]
    cases which : b.op with
    | create => rfl
    | update =>
      obtain ⟨d, stamp, given, reads⟩ := stamped which
      rw [itemStamp_ok given reads]
      rfl
    | delete => exact absurd which kind

-- A stamp that is needed is there, or it is what is wrong with the item.
theorem stamped_or_flawed {b : Binding} {item : Item} {rid : RowId} (named : named? item = some rid)
    (kind : b.op ≠ .create) :
    (∃ d stamp, Members.get? stampField item = some d ∧ Versionstamp.ofDatum d = .ok stamp) ∨
      ∃ p, Flawed b (.object item) p := by
  cases given : Members.get? stampField item with
  | none => exact .inr ⟨_, .noStamp named kind (.inl given)⟩
  | some d =>
    cases reads : Versionstamp.ofDatum d with
    | ok stamp => exact .inl ⟨d, stamp, rfl, reads⟩
    | error e =>
      by_cases null : d = .null
      · exact .inr ⟨_, .noStamp named kind (.inr (null ▸ given))⟩
      · exact .inr ⟨_, .badStamp named kind given null reads⟩

-- Columns that are needed can be stored, or they are what is wrong with the item.
theorem stored_or_flawed {b : Binding} {item : Item} {rid : RowId} (named : named? item = some rid)
    (kind : b.op ≠ .delete)
    (stamped : b.op = .update → ∃ d stamp, Members.get? stampField item = some d ∧
      Versionstamp.ofDatum d = .ok stamp) :
    (∃ row, Value.ofDatumMembers (columns item) = .ok row) ∨ ∃ p, Flawed b (.object item) p := by
  have stores := Value.ofDatumMembers_stores (columns item)
  cases bytes : Datum.hasBinaryMembers (columns item) with
  | false =>
    rw [bytes] at stores
    exact .inl stores
  | true =>
    rw [Datum.hasBinaryMembers_eq_any, List.any_eq_true] at bytes
    exact .inr ⟨_, .binary named kind stamped bytes⟩

theorem asks_or_flawed (b : Binding) (d : Datum) : (∃ w, Asks b d w) ∨ ∃ p, Flawed b d p := by
  cases form : d.asObject? with
  | none => exact .inr ⟨_, .notObject form⟩
  | some item =>
    obtain rfl := Datum.asObject?_eq_some.mp form
    cases named : named? item with
    | none => exact .inr ⟨_, .noId named⟩
    | some rid =>
      cases kind : b.op with
      | create =>
        refine (stored_or_flawed named (by simp [kind]) (by simp [kind])).imp_left ?_
        rintro ⟨row, stores⟩
        exact ⟨_, .create kind named stores⟩
      | update =>
        refine (stamped_or_flawed named (by simp [kind])).elim (fun stamped => ?_) .inr
        refine (stored_or_flawed named (by simp [kind]) fun _ => stamped).imp_left ?_
        obtain ⟨d, stamp, given, reads⟩ := stamped
        rintro ⟨row, stores⟩
        exact ⟨_, .update kind named given reads stores⟩
      | delete =>
        refine (stamped_or_flawed named (by simp [kind])).imp_left ?_
        rintro ⟨d, stamp, given, reads⟩
        exact ⟨_, .delete kind named given reads⟩

abbrev AllAsk (items : List (Binding × Datum)) (ws : List Demand) : Prop :=
  List.Forall₂ (fun i w => Asks i.1 i.2 w) items ws

-- The first item with a flaw, behind well-formed ones.
def FirstFlaw (items : List (Binding × Datum)) (p : ResolveProblem) : Prop :=
  ∃ before b d after, items = before ++ (b, d) :: after ∧
    (∀ i ∈ before, ∃ w, Asks i.1 i.2 w) ∧ Flawed b d p

theorem addItems_of_asks {items : List (Binding × Datum)} {ws : List Demand}
    (asks : AllAsk items ws) (op : Operation) : addItems op items = .ok (ws.foldl ask op) := by
  induction asks generalizing op with
  | nil => rfl
  | cons first _ ih =>
    rw [addItems, addItem_of_asks first]
    exact ih _

theorem addItems_of_flaw {items : List (Binding × Datum)} {p : ResolveProblem}
    (flaw : FirstFlaw items p) (op : Operation) : addItems op items = .error p.error := by
  obtain ⟨before, b, d, after, rfl, asks, flawed⟩ := flaw
  induction before generalizing op with
  | nil =>
    rw [List.nil_append, addItems, addItem_of_flawed flawed]
    rfl
  | cons i rest ih =>
    obtain ⟨w, first⟩ := asks i List.mem_cons_self
    rw [List.cons_append, addItems, addItem_of_asks first]
    exact ih _ fun j member => asks j (List.mem_cons_of_mem _ member)

theorem allAsk_or_flaw (items : List (Binding × Datum)) :
    (∃ ws, AllAsk items ws) ∨ ∃ p, FirstFlaw items p := by
  induction items with
  | nil => exact .inl ⟨[], .nil⟩
  | cons i rest ih =>
    obtain ⟨w, first⟩ | ⟨p, flawed⟩ := asks_or_flawed i.1 i.2
    · obtain ⟨ws, asks⟩ | ⟨p, before, b, d, after, rfl, asks, flawed⟩ := ih
      · exact .inl ⟨w :: ws, .cons first asks⟩
      · refine .inr ⟨p, i :: before, b, d, after, rfl, ?_, flawed⟩
        intro j member
        rcases List.mem_cons.mp member with rfl | later
        · exact ⟨w, first⟩
        · exact asks j later
    · exact .inr ⟨p, [], i.1, i.2, rest, rfl, by simp, flawed⟩

end Commit

end RowGraph
