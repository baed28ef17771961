import RowGraph.Proofs.Execution.Consulted
import RowGraph.Proofs.Mutation.Counted
import RowGraph.Proofs.Mutation.Standing
import RowGraph.Proofs.Schema.Pieces
import RowGraph.Store.Traced
/-!
The one call that a mutation field makes of its store. There is an operation just if there are items
and all of them are well formed, and it has a check and a write for each of them. Main statement: a
store, whatever it answers, sees this commit or nothing at all, and no write without its check.
-/

namespace RowGraph

variable {σ : Type}

-- The row has a place of its own for its id and its stamp, which are no columns.
structure Row.Unmarked (row : Row) : Prop where
  id : row.column? idColumn = none
  stamp : row.column? stampField = none

namespace Commit

theorem unmarked_columns {item : Item} {columns' : List (String × Value)}
    (stored : Value.ofDatumMembers (columns item) = .ok columns') :
    (Row.ofColumns columns').Unmarked := by
  have absent (name : String) (own : name = idColumn ∨ name = stampField) :
      (Row.ofColumns columns').column? name = none := by
    have column := Value.column?_stored stored name
    have missing : Members.final? name (columns item) = none := by
      simp only [Members.final?, last?, Option.map_eq_none_iff, List.find?_eq_none, List.mem_reverse,
        decide_eq_true_iff]
      intro m member same
      have kept := (List.mem_filter.mp member).2
      rcases own with rfl | rfl <;> simp [same] at kept
    rw [missing] at column
    generalize (Row.ofColumns columns').column? name = stands at column ⊢
    cases column
    rfl
  exact ⟨absent _ (.inl rfl), absent _ (.inr rfl)⟩

-- A check and a write for one item, both on the row that it names. A new row must not stand there
-- yet, and any other must stand under the stamp that the item brings along.
inductive Guards (b : Binding) : Datum → Check → Mutation → Prop where
  | create : b.op = .create → named? item = some rid → row.Unmarked →
      Guards b (.object item) ⟨⟨b.table, rid⟩, none⟩ (.set ⟨b.table, rid⟩ row)
  | update : b.op = .update → named? item = some rid →
      Members.get? stampField item = some d → Versionstamp.ofDatum d = .ok stamp → row.Unmarked →
      Guards b (.object item) ⟨⟨b.table, rid⟩, some stamp⟩ (.set ⟨b.table, rid⟩ row)
  | delete : b.op = .delete → named? item = some rid →
      Members.get? stampField item = some d → Versionstamp.ofDatum d = .ok stamp →
      Guards b (.object item) ⟨⟨b.table, rid⟩, some stamp⟩ (.delete ⟨b.table, rid⟩)

theorem Asks.guards {b : Binding} {d : Datum} {w : Demand} (asks : Asks b d w) :
    Guards b d w.check w.write := by
  cases asks with
  | create kind named stored => exact .create kind named (unmarked_columns stored)
  | update kind named given reads stored =>
    exact .update kind named given reads (unmarked_columns stored)
  | delete kind named given reads => exact .delete kind named given reads

-- An operation that has one check and one write for each item, in their order.
structure Guarded (listed : List (Binding × Datum)) (op : Operation) : Prop where
  checks : op.checks.length = listed.length
  writes : op.mutations.length = listed.length
  each : ∀ (n : Nat) b d c w, listed[n]? = some (b, d) → op.checks[n]? = some c →
    op.mutations[n]? = some w → Guards b d c w

theorem guarded_of_asks {listed : List (Binding × Datum)} {ws : List Demand}
    (asks : AllAsk listed ws) : Guarded listed (ws.foldl ask {}) := by
  simp only [foldl_ask, List.nil_append]
  refine ⟨by simp [asks.length_eq], by simp [asks.length_eq], ?_⟩
  intro n b d c w item check write
  simp only [List.getElem?_map, Option.map_eq_some_iff] at check write
  obtain ⟨demand, here, rfl⟩ := check
  obtain ⟨demand', here', rfl⟩ := write
  obtain rfl := Option.some.inj (here.symm.trans here')
  obtain ⟨inside, rfl⟩ := List.getElem?_eq_some_iff.mp here
  obtain ⟨inside', same⟩ := List.getElem?_eq_some_iff.mp item
  have own := asks.get inside' inside
  simp only [List.get_eq_getElem, same] at own
  exact own.guards

theorem allAsk_of_each {listed : List (Binding × Datum)}
    (each : ∀ i ∈ listed, ∃ w, Asks i.1 i.2 w) : ∃ ws, AllAsk listed ws := by
  induction listed with
  | nil => exact ⟨[], .nil⟩
  | cons i rest ih =>
    obtain ⟨w, first⟩ := each i List.mem_cons_self
    obtain ⟨ws, others⟩ := ih fun j member => each j (List.mem_cons_of_mem _ member)
    exact ⟨w :: ws, .cons first others⟩

end Commit

-- A field that has something to commit: no hook refuses it, and its items are there and well formed.
structure Schema.Delivers (s : Schema) (a : Asked) (plan : MutationPlan)
    (listed : List (Binding × Datum)) : Prop where
  submits : s.Submits a plan listed
  some : listed ≠ []
  formed : ∀ i ∈ listed, ∃ w, Commit.Asks i.1 i.2 w

namespace Schema

variable {s : Schema} {a : Asked} {plan : MutationPlan} {listed : List (Binding × Datum)}

theorem Delivers.sends (delivers : s.Delivers a plan listed) :
    ∃ op, s.sends a.type a.field a.arguments = [op] ∧ Commit.Guarded listed op := by
  obtain ⟨ws, asks⟩ := Commit.allAsk_of_each delivers.formed
  have some : ws ≠ [] := by
    rintro rfl
    exact delivers.some (List.forall₂_nil_right_iff.mp asks)
  refine ⟨_, ?_, Commit.guarded_of_asks asks⟩
  rw [sends_eq, delivers.submits.items, Commit.sendsOf_asks asks some]

theorem sends_undelivered (served : FieldMap.get? s.resolvers a.type a.field = some (.mutation plan))
    (undelivered : ∀ listed, ¬ s.Delivers a plan listed) :
    s.sends a.type a.field a.arguments = [] := by
  rw [sends_eq]
  cases free : s.refusal? a.type a.field a.arguments with
  | some message =>
    rw [items, free]
    rfl
  | none =>
    obtain ⟨listed, submits⟩ | ⟨none, _⟩ := submits_or_itemless free served
    · rw [submits.items]
      obtain ⟨ws, asks⟩ | ⟨p, flaw⟩ := Commit.allAsk_or_flaw listed
      · have formed (i) (member : i ∈ listed) : ∃ w, Commit.Asks i.1 i.2 w := by
          obtain ⟨w, _, own⟩ := mem_of_forall₂ asks member
          exact ⟨w, own⟩
        by_cases empty : listed = []
        · rw [empty]
          rfl
        · exact absurd ⟨submits, empty, formed⟩ (undelivered listed)
      · exact Commit.sendsOf_flaw flaw
    · rw [none]
      rfl

-- A mutation field reads nothing.
theorem fieldCalls_mutation
    (served : FieldMap.get? s.resolvers a.type a.field = some (.mutation plan)) :
    s.fieldCalls a = (s.sends a.type a.field a.arguments).map .commit := by
  have none : s.fieldLookups a = [] := by
    unfold fieldLookups
    rw [served]
    cases s.refusal? a.type a.field a.arguments <;> rfl
  rw [fieldCalls, none]
  rfl

end Schema

theorem Follows.commit {op : Operation} {events : List Event} {fault : Option StoreError}
    (follows : Follows [.commit op] events fault) : ∃ answer, events = [.committed op answer] := by
  generalize asked : [Call.commit op] = calls at follows
  cases follows with
  | done => cases asked
  | next event _ rest =>
    obtain ⟨call, rfl⟩ := List.cons.inj asked
    cases rest
    cases event with
    | got => cases call
    | committed op' answer =>
      cases call
      exact ⟨answer, rfl⟩
  | fault event _ =>
    obtain ⟨call, _⟩ := List.cons.inj asked
    cases event with
    | got => cases call
    | committed op' answer =>
      cases call
      exact ⟨answer, rfl⟩

-- What a store sees of a mutation field.
structure Seen (s : Schema) (a : Asked) (plan : MutationPlan) (events : List Event) : Prop where
  unread : ∀ key answer, .got key answer ∉ events
  single : events.length ≤ 1
  sent : (∃ op answer, .committed op answer ∈ events) ↔ ∃ listed, s.Delivers a plan listed
  guarded : ∀ op answer, .committed op answer ∈ events → ∀ listed, s.Delivers a plan listed →
    Commit.Guarded listed op

theorem Schema.seen_of_follows {s : Schema} {a : Asked} {plan : MutationPlan}
    (served : FieldMap.get? s.resolvers a.type a.field = some (.mutation plan))
    {events : List Event} {fault : Option StoreError}
    (follows : Follows (s.fieldCalls a) events fault) : Seen s a plan events := by
  rw [fieldCalls_mutation served] at follows
  by_cases delivered : ∃ listed, s.Delivers a plan listed
  · obtain ⟨listed, delivers⟩ := delivered
    obtain ⟨op, sent, guarded⟩ := delivers.sends
    rw [sent] at follows
    obtain ⟨answer, rfl⟩ := follows.commit
    refine ⟨by simp, Nat.le_refl 1, ⟨fun _ => ⟨listed, delivers⟩, fun _ => ⟨op, answer, by simp⟩⟩, ?_⟩
    intro op' answer' member listed' delivers'
    obtain ⟨rfl, rfl⟩ := Event.committed.inj (List.mem_singleton.mp member)
    rwa [← delivers'.submits.items, delivers.submits.items]
  · rw [sends_undelivered served fun listed delivers => delivered ⟨listed, delivers⟩] at follows
    cases follows
    refine ⟨by simp, Nat.zero_le 1, ⟨?_, fun made => absurd made delivered⟩, ?_⟩
    · rintro ⟨op, answer, member⟩
      cases member
    · intro op answer member
      cases member

theorem mutation_guarded {s : Schema} (built : s.Built) {type field : String} {plan : MutationPlan}
    (resolves : FieldMap.get? s.resolvers type field = some (.mutation plan)) {b : Backend σ}
    {x : Execution (Diary σ)} (own : x.schema = s) (noted : x.backend = b.noted) (here : Path)
    (loc : Location) (arguments : Arguments) (parent : Outcome) (r : Run (Diary σ)) :
    s.document.Plans type field plan ∧ ∃ events,
      (x.declaredField type field here loc arguments parent r).2.store.events =
        r.store.events ++ events ∧ Seen s ⟨type, field, parent, arguments⟩ plan events := by
  subst own
  obtain ⟨events, fault, follows, grown, _⟩ :=
    x.declaredField_makes noted type field here loc arguments parent r
  exact ⟨built.grounded.plans resolves, events, grown, Schema.seen_of_follows resolves follows⟩

-- A store that turns every commit down sees this one all the same.
def brokenStore : Traced := { memory := shopStore, faults := { commits := some (.transaction "down") } }

def shopWrites (s : Schema) : List Event :=
  let x : Execution (Diary Traced) := ⟨s, Traced.backend.noted, [], []⟩
  (x.declaredField "Mutation" "write" [] ⟨1, 1⟩ [("input", .object shopInput)] (.row [])
    { store := ⟨brokenStore, []⟩ }).2.store.events

theorem shop_guarded : ∃ s : Schema, s.Built ∧
    FieldMap.get? s.resolvers "Mutation" "write" = some (.mutation shopPlan) ∧
    s.document.Plans "Mutation" "write" shopPlan ∧ ∃ events, shopWrites s = [] ++ events ∧
      Seen s ⟨"Mutation", "write", .row [], [("input", .object shopInput)]⟩ shopPlan events ∧
      events.length = 1 := by
  have served : ((Session.build {} shop []).toOption.bind fun s =>
      (FieldMap.get? s.resolvers "Mutation" "write").map fun resolver =>
        (resolver, (shopWrites s).length)) = some (.mutation shopPlan, 1) := by
    rw [Session.build_toList]
    simp only [shop, String.toList_append, Overview.toList_ask]
    decide +kernel
  obtain ⟨s, made, served⟩ := Option.bind_eq_some_iff.mp served
  obtain ⟨resolver, resolves, same⟩ := Option.map_eq_some_iff.mp served
  obtain ⟨rfl, single⟩ := Prod.mk.inj same
  have built : s.Built := ⟨{}, shop, [], ok_of_toOption made⟩
  obtain ⟨plans, events, grown, seen⟩ := mutation_guarded built resolves (b := Traced.backend)
    (x := ⟨s, Traced.backend.noted, [], []⟩) rfl rfl [] ⟨1, 1⟩ [("input", .object shopInput)]
    (.row []) { store := ⟨brokenStore, []⟩ }
  refine ⟨s, built, resolves, plans, events, grown, seen, ?_⟩
  rw [← single]
  exact congrArg List.length grown.symm

end RowGraph
