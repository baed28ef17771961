import RowGraph.Proofs.Mutation.Atomic
import RowGraph.Proofs.Store.Settling
import RowGraph.Proofs.Value.Reordered
/-!
Input objects that say the same in another order. The order of members does not tell what an item
asks for, nor which item is the first with a flaw; and the order of items does not matter as long as
all are well formed and name different rows. Main statement: a mutation answers the same to both and
leaves the same store.
-/

namespace RowGraph

open Datum (Reordered)

-- The same problem, up to the order of the members of what was found.
inductive ResolveProblem.Reordered : ResolveProblem → ResolveProblem → Prop where
  | same (p : ResolveProblem) : Reordered p p
  | stamp : d.Reordered d' →
      Reordered (.invalidVersionstamp d reason) (.invalidVersionstamp d' reason)

namespace Versionstamp

variable {d d' : Datum}

theorem ofDatum_ok_reordered {stamp : Versionstamp} (same : d.Reordered d')
    (reads : ofDatum d = .ok stamp) : ofDatum d' = .ok stamp := by
  cases same with
  | same => exact reads
  | list => cases reads
  | object => cases reads

-- A list or an object is turned down by its kind alone.
theorem ofDatum_error_reordered {e : DatumError} (same : d.Reordered d')
    (fails : ofDatum d = .error e) : ∃ e', ofDatum d' = .error e' ∧ e'.message = e.message := by
  cases same with
  | same => exact ⟨e, fails, rfl⟩
  | list =>
    obtain rfl := Except.error.inj fails
    exact ⟨_, rfl, rfl⟩
  | object =>
    obtain rfl := Except.error.inj fails
    exact ⟨_, rfl, rfl⟩

end Versionstamp

namespace Resolve

theorem idOfDatum?_reordered {d d' : Datum} (same : d.Reordered d') :
    idOfDatum? d' = idOfDatum? d := by
  cases same <;> rfl

end Resolve

namespace Datum.Reordered

variable {d d' : Datum}

theorem null_iff (same : d.Reordered d') : d' = .null ↔ d = .null := by
  cases same <;> simp

end Datum.Reordered

namespace Commit

section

variable {item item' : Item} (same : (Datum.object item).Reordered (.object item'))

include same

theorem named?_reordered : named? item' = named? item := by
  unfold named?
  have both := same.get? idColumn
  generalize Members.get? idColumn item = left at both ⊢
  generalize Members.get? idColumn item' = right at both ⊢
  cases both with
  | none => rfl
  | some related => exact Resolve.idOfDatum?_reordered related

theorem columns_reordered :
    (Datum.object (columns item)).Reordered (.object (columns item')) :=
  same.filter fun name => name ≠ idColumn && name ≠ stampField

theorem stamped_reordered {d : Datum} (given : Members.get? stampField item = some d) :
    ∃ d', Members.get? stampField item' = some d' ∧ d.Reordered d' := by
  have both := same.get? stampField
  rw [given] at both
  cases found : Members.get? stampField item' with
  | none => rw [found] at both; cases both
  | some d' =>
    rw [found] at both
    cases both with
    | some related => exact ⟨d', rfl, related⟩

theorem unstamped_reordered (missing : Members.get? stampField item = none ∨
      Members.get? stampField item = some .null) :
    Members.get? stampField item' = none ∨ Members.get? stampField item' = some .null := by
  rcases missing with none | null
  · have both := same.get? stampField
    rw [none] at both
    exact .inl (by cases found : Members.get? stampField item' <;> simp_all)
  · obtain ⟨d', given, related⟩ := stamped_reordered same null
    obtain rfl := related.null_iff.mpr rfl
    exact .inr given

theorem row_reordered {columns₁ : List (String × Value)}
    (stored : Value.ofDatumMembers (columns item) = .ok columns₁) :
    ∃ columns₂, Value.ofDatumMembers (columns item') = .ok columns₂ ∧
      Row.ofColumns columns₂ = Row.ofColumns columns₁ := by
  have moved := Value.ofDatumMembers_reordered (columns_reordered same)
  rw [stored] at moved
  exact Value.map_ok moved

theorem bytes_reordered (bytes : ∃ m ∈ columns item, m.2.hasBinary = true) :
    ∃ m ∈ columns item', m.2.hasBinary = true := by
  have fails := itemRow_binary bytes
  have moved := Value.ofDatumMembers_reordered (columns_reordered same)
  rw [← itemRow_eq, ← itemRow_eq, fails] at moved
  by_contra none
  have clean : Datum.hasBinaryMembers (columns item') = false := by
    rw [Datum.hasBinaryMembers_eq_any]
    simpa using none
  have stores := Value.ofDatumMembers_stores (columns item')
  rw [clean] at stores
  obtain ⟨row, stored⟩ := stores
  rw [itemRow_eq, stored] at moved
  cases moved

end

variable {b : Binding} {d d' : Datum}

theorem Asks.reordered {w : Demand} (asks : Asks b d w) (same : d.Reordered d') : Asks b d' w := by
  cases asks with
  | create kind named stored =>
    obtain ⟨item', rfl⟩ := same.object_left
    obtain ⟨row, stored', moved⟩ := row_reordered same stored
    rw [← moved]
    exact .create kind ((named?_reordered same).trans named) stored'
  | update kind named given reads stored =>
    obtain ⟨item', rfl⟩ := same.object_left
    obtain ⟨row, stored', moved⟩ := row_reordered same stored
    obtain ⟨d', given', related⟩ := stamped_reordered same given
    rw [← moved]
    exact .update kind ((named?_reordered same).trans named) given'
      (Versionstamp.ofDatum_ok_reordered related reads) stored'
  | delete kind named given reads =>
    obtain ⟨item', rfl⟩ := same.object_left
    obtain ⟨d', given', related⟩ := stamped_reordered same given
    exact .delete kind ((named?_reordered same).trans named) given'
      (Versionstamp.ofDatum_ok_reordered related reads)

theorem Flawed.reordered {p : ResolveProblem} (flawed : Flawed b d p) (same : d.Reordered d') :
    ∃ p', Flawed b d' p' ∧ p.Reordered p' := by
  cases flawed with
  | notObject other => exact ⟨_, .notObject (same.asObject?_none other), .same _⟩
  | noId unnamed =>
    obtain ⟨item', rfl⟩ := same.object_left
    exact ⟨_, .noId ((named?_reordered same).trans unnamed), .same _⟩
  | noStamp named kind missing =>
    obtain ⟨item', rfl⟩ := same.object_left
    exact ⟨_, .noStamp ((named?_reordered same).trans named) kind
      (unstamped_reordered same missing), .same _⟩
  | badStamp named kind given present fails =>
    obtain ⟨item', rfl⟩ := same.object_left
    obtain ⟨d', given', related⟩ := stamped_reordered same given
    obtain ⟨e', fails', message⟩ := Versionstamp.ofDatum_error_reordered related fails
    refine ⟨_, .badStamp ((named?_reordered same).trans named) kind given'
      (fun null => present (related.null_iff.mp null)) fails', ?_⟩
    rw [message]
    exact .stamp related
  | binary named kind stamped bytes =>
    obtain ⟨item', rfl⟩ := same.object_left
    refine ⟨_, .binary ((named?_reordered same).trans named) kind (fun update => ?_)
      (bytes_reordered same bytes), .same _⟩
    obtain ⟨d, stamp, given, reads⟩ := stamped update
    obtain ⟨d', given', related⟩ := stamped_reordered same given
    exact ⟨d', stamp, given', Versionstamp.ofDatum_ok_reordered related reads⟩

-- Items of the same bindings in the same places, with values up to order.
abbrev SameItems (items items' : List (Binding × Datum)) : Prop :=
  List.Forall₂ (fun i i' => i.1 = i'.1 ∧ i.2.Reordered i'.2) items items'

theorem itemsOf_reordered {input input' : List (String × Datum)}
    (same : (Datum.object input).Reordered (.object input')) (b : Binding) :
    List.Forall₂ Reordered (itemsOf input b) (itemsOf input' b) := by
  unfold itemsOf
  have both := same.get? b.field
  generalize Members.get? b.field input = left at both ⊢
  generalize Members.get? b.field input' = right at both ⊢
  cases both with
  | none => exact .nil
  | some related =>
    cases related with
    | list items => exact items
    | object distinct names values order =>
      exact .cons (.object distinct names values order) .nil
    | same d => exact List.forall₂_same.mpr fun d _ => .same d

theorem items_reordered {input input' : List (String × Datum)}
    (same : (Datum.object input).Reordered (.object input')) (bindings : List Binding) :
    SameItems (items bindings input) (items bindings input') := by
  induction bindings with
  | nil => exact .nil
  | cons b rest ih =>
    refine List.rel_append ?_ ih
    refine List.forall₂_map_left_iff.mpr (List.forall₂_map_right_iff.mpr ?_)
    exact (itemsOf_reordered same b).imp fun _ _ both => ⟨rfl, both⟩

-- The item at a position is the first with a flaw, and this is its flaw.
structure FlawAt (items : List (Binding × Datum)) (position : Nat) (p : ResolveProblem) : Prop where
  flawed : ∃ i, items[position]? = some i ∧ Flawed i.1 i.2 p
  asks : ∀ i ∈ items.take position, ∃ w, Asks i.1 i.2 w

theorem FirstFlaw.position {items : List (Binding × Datum)} {p : ResolveProblem}
    (flaw : FirstFlaw items p) : ∃ n, FlawAt items n p := by
  obtain ⟨before, b, d, after, rfl, asks, flawed⟩ := flaw
  exact ⟨before.length, ⟨(b, d), by simp, flawed⟩, by simpa using asks⟩

theorem FlawAt.first {items : List (Binding × Datum)} {n : Nat} {p : ResolveProblem}
    (flaw : FlawAt items n p) : FirstFlaw items p := by
  obtain ⟨i, there, flawed⟩ := flaw.flawed
  obtain ⟨inside, rfl⟩ := List.getElem?_eq_some_iff.mp there
  refine ⟨items.take n, items[n].1, items[n].2, items.drop (n + 1), ?_, flaw.asks, flawed⟩
  rw [← List.drop_eq_getElem_cons inside, List.take_append_drop]

theorem FlawAt.reordered {listed listed' : List (Binding × Datum)} {n : Nat} {p : ResolveProblem}
    (flaw : FlawAt listed n p) (same : SameItems listed listed') :
    ∃ p', FlawAt listed' n p' ∧ p.Reordered p' := by
  obtain ⟨⟨i, there, flawed⟩, asks⟩ := flaw
  obtain ⟨inside, rfl⟩ := List.getElem?_eq_some_iff.mp there
  have inside' : n < listed'.length := same.length_eq ▸ inside
  obtain ⟨binding, related⟩ := same.get inside inside'
  obtain ⟨p', flawed', alike⟩ := flawed.reordered related
  refine ⟨p', ⟨⟨listed'[n], List.getElem?_eq_getElem inside', ?_⟩, fun i' member => ?_⟩, alike⟩
  · rwa [show listed'[n].1 = listed[n].1 from binding.symm]
  · obtain ⟨i, earlier, binding, related⟩ := mem_of_forall₂ (List.forall₂_take n same).flip member
    obtain ⟨w, asked⟩ := asks i earlier
    exact ⟨w, binding ▸ asked.reordered related⟩

theorem AllAsk.reordered {listed listed' : List (Binding × Datum)} {ws : List Demand}
    (asks : AllAsk listed ws) (same : SameItems listed listed') : AllAsk listed' ws := by
  induction asks generalizing listed' with
  | nil =>
    obtain rfl := List.forall₂_nil_left_iff.mp same
    exact .nil
  | cons first _ ih =>
    cases same with
    | cons both rest => exact .cons (both.1 ▸ first.reordered both.2) (ih rest)

-- Both are collected into the same operation, or the items in the same place turn both down.
theorem addItems_reordered {listed listed' : List (Binding × Datum)}
    (same : SameItems listed listed') (op : Operation) :
    addItems op listed' = addItems op listed ∨
      ∃ n p p', FlawAt listed n p ∧ FlawAt listed' n p' ∧ p.Reordered p' ∧
        addItems op listed = .error p.error ∧ addItems op listed' = .error p'.error := by
  obtain ⟨ws, asks⟩ | ⟨p, flaw⟩ := allAsk_or_flaw listed
  · rw [addItems_of_asks asks, addItems_of_asks (asks.reordered same)]
    exact .inl rfl
  · obtain ⟨n, flaw⟩ := flaw.position
    obtain ⟨p', flaw', alike⟩ := flaw.reordered same
    exact .inr ⟨n, p, p', flaw, flaw', alike, addItems_of_flaw flaw.first op,
      addItems_of_flaw flaw'.first op⟩

-- The same list for each binding, but for the order of the items.
theorem items_perm {input input' : List (String × Datum)} (bindings : List Binding)
    (same : ∀ b ∈ bindings, (itemsOf input b).Perm (itemsOf input' b)) :
    (items bindings input).Perm (items bindings input') :=
  List.Perm.flatMap_left bindings fun b member => (same b member).map _

-- Well-formed items on different keys come to the same commit in any order.
theorem commit_perm {ws ws' : List Demand} (same : ws.Perm ws')
    (distinct : (ws.map Demand.key).Nodup) (m : Memory) :
    m.commit (ws'.foldl ask {}) = m.commit (ws.foldl ask {}) := by
  rw [foldl_ask, foldl_ask]
  refine Memory.commit_congr (fun c => (same.map _).mem_iff.symm) fun stamp => ?_
  refine Memory.foldl_apply_perm stamp m.rows (same.map _) ?_
  simpa [Function.comp_def, Demand.write_key] using distinct

-- A bound field has its items in another order, and every other field is as it was.
structure Shuffled (input input' : List (String × Datum)) (field : String) : Prop where
  items : ∃ ds ds', Members.get? field input = some (.list ds) ∧
    Members.get? field input' = some (.list ds') ∧ ds.Perm ds'
  others : ∀ name, name ≠ field → Members.get? name input' = Members.get? name input

theorem Shuffled.itemsOf {input input' : List (String × Datum)} {field : String}
    (shuffled : Shuffled input input' field) (b : Binding) :
    (itemsOf input b).Perm (itemsOf input' b) := by
  by_cases named : b.field = field
  · obtain ⟨ds, ds', given, given', same⟩ := shuffled.items
    unfold Commit.itemsOf
    rw [named, given, given']
    exact same
  · unfold Commit.itemsOf
    rw [shuffled.others _ named]

end Commit

namespace Commit

-- What the runs of a mutation on two orders of one input come to, both from the same state.
inductive SameAnswer {σ : Type} (r : Run σ) (listed listed' : List (Binding × Datum)) :
    Except GraphError (Option Outcome) × Run σ → Except GraphError (Option Outcome) × Run σ → Prop where
  | same (x : Except GraphError (Option Outcome) × Run σ) : SameAnswer r listed listed' x x
  -- Both are turned down for the item in the same place, and nothing is written.
  | flawed : FlawAt listed n p → FlawAt listed' n p' → p.Reordered p' →
      SameAnswer r listed listed' (.error p.error, r) (.error p'.error, r)

theorem mutation_agree {σ : Type} (b : Backend σ) {plan : MutationPlan}
    {arguments arguments' : Arguments} {input input' : List (String × Datum)}
    (given : Members.get? plan.argument arguments = some (.object input))
    (given' : Members.get? plan.argument arguments' = some (.object input'))
    (same : (Datum.object input).Reordered (.object input')) (r : Run σ) :
    SameAnswer r (items plan.bindings input) (items plan.bindings input')
      ((mutation b plan arguments).run r) ((mutation b plan arguments').run r) := by
  rw [mutation_eq b given, mutation_eq b given', operation, operation]
  obtain collected | ⟨n, p, p', flaw, flaw', alike, left, right⟩ :=
    addItems_reordered (items_reordered same plan.bindings) {}
  · rw [collected]
    exact .same _
  · rw [left, right]
    exact .flawed flaw flaw' alike

theorem mutation_shuffled {plan : MutationPlan} {arguments arguments' : Arguments}
    {input input' : List (String × Datum)}
    (given : Members.get? plan.argument arguments = some (.object input))
    (given' : Members.get? plan.argument arguments' = some (.object input'))
    {field : String} (shuffled : Shuffled input input' field) {ws : List Demand}
    (asks : AllAsk (items plan.bindings input) ws) (distinct : (ws.map Demand.key).Nodup)
    (r : Run Memory) :
    (mutation Memory.backend plan arguments').run r =
      (mutation Memory.backend plan arguments).run r := by
  have order := items_perm plan.bindings fun b _ => shuffled.itemsOf b
  obtain ⟨ws', asks', moved⟩ := List.perm_comp_forall₂ order.symm asks
  have empty : ws'.isEmpty = ws.isEmpty := by
    rw [Bool.eq_iff_iff, List.isEmpty_iff_length_eq_zero, List.isEmpty_iff_length_eq_zero,
      moved.length_eq]
  rw [mutation_of_asks given (listed_items _ _) asks,
    mutation_of_asks given' (listed_items _ _) asks', commit_perm moved.symm distinct, empty]

end Commit

open Commit in
theorem mutation_order_free {plan : MutationPlan} {arguments arguments' : Arguments}
    {input input' : List (String × Datum)}
    (given : Members.get? plan.argument arguments = some (.object input))
    (given' : Members.get? plan.argument arguments' = some (.object input')) :
    ((Datum.object input).Reordered (.object input') →
      SameItems (items plan.bindings input) (items plan.bindings input') ∧
      ∀ {σ : Type} (b : Backend σ) (r : Run σ),
        SameAnswer r (items plan.bindings input) (items plan.bindings input')
          ((mutation b plan arguments).run r) ((mutation b plan arguments').run r)) ∧
    ∀ field, Shuffled input input' field →
      ∀ ws, AllAsk (items plan.bindings input) ws → (ws.map Demand.key).Nodup →
        ∀ r : Run Memory, (mutation Memory.backend plan arguments').run r =
          (mutation Memory.backend plan arguments).run r := by
  refine ⟨fun same => ⟨items_reordered same plan.bindings, fun b r => ?_⟩, ?_⟩
  · exact mutation_agree b given given' same r
  · intro field shuffled ws asks distinct r
    exact mutation_shuffled given given' shuffled asks distinct r

-- Two books to add, the first with a title in two languages.
def shopDune : List (String × Datum) :=
  [("id", .string "2"), ("title", .object [("en", .string "Dune"), ("de", .string "Wüste")])]

def shopEmma : List (String × Datum) := [("id", .string "3")]

def shopOrder : List (String × Datum) := [("add", .list [.object shopDune, .object shopEmma]), ("put", .null)]

-- The same with all members the other way round.
def shopTurned : List (String × Datum) :=
  [("put", .null), ("add", .list [.object [("title", .object [("de", .string "Wüste"),
    ("en", .string "Dune")]), ("id", .string "2")], .object shopEmma])]

-- And with the books the other way round.
def shopShuffled : List (String × Datum) :=
  [("add", .list [.object shopEmma, .object shopDune]), ("put", .null)]

open Commit in
theorem shop_order_free :
    ((Datum.object shopOrder).Reordered (.object shopTurned) ∧
      SameItems (items shopPlan.bindings shopOrder) (items shopPlan.bindings shopTurned) ∧
      ∀ {σ : Type} (b : Backend σ) (r : Run σ),
        SameAnswer r (items shopPlan.bindings shopOrder) (items shopPlan.bindings shopTurned)
          ((mutation b shopPlan [("input", .object shopOrder)]).run r)
          ((mutation b shopPlan [("input", .object shopTurned)]).run r)) ∧
    Shuffled shopOrder shopShuffled "add" ∧ ∃ ws, AllAsk (items shopPlan.bindings shopOrder) ws ∧
      (ws.map Demand.key).Nodup ∧ ∀ r : Run Memory,
        (mutation Memory.backend shopPlan [("input", .object shopShuffled)]).run r =
          (mutation Memory.backend shopPlan [("input", .object shopOrder)]).run r := by
  have title : (Datum.object [("en", .string "Dune"), ("de", .string "Wüste")]).Reordered
      (.object [("de", .string "Wüste"), ("en", .string "Dune")]) :=
    .turned (by decide) (.same _) (.same _)
  have turned : (Datum.object shopOrder).Reordered (.object shopTurned) :=
    .turned (by decide)
      (.list (.cons (.turned (by decide) (.same _) title) (.cons (.same _) .nil))) (.same _)
  have shuffled : Shuffled shopOrder shopShuffled "add" := by
    refine ⟨⟨_, _, rfl, rfl, .swap _ _ _⟩, fun name other => ?_⟩
    simp [shopOrder, shopShuffled, Members.get?_cons, Ne.symm other]
  have asks : AllAsk (items shopPlan.bindings shopOrder)
      [⟨⟨"Book", ⟨"2"⟩⟩, none, some _⟩, ⟨⟨"Book", ⟨"3"⟩⟩, none, some _⟩] :=
    .cons (.create rfl rfl rfl) (.cons (.create rfl rfl rfl) .nil)
  have distinct : ([⟨"Book", ⟨"2"⟩⟩, ⟨"Book", ⟨"3"⟩⟩] : List Key).Nodup := by decide
  have order {input : List (String × Datum)} :=
    @mutation_order_free shopPlan [("input", .object shopOrder)] [("input", .object input)]
      shopOrder input rfl rfl
  exact ⟨⟨turned, order.1 turned⟩, shuffled, _, asks, distinct,
    order.2 "add" shuffled _ asks distinct⟩

end RowGraph
