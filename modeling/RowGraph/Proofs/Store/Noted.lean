import RowGraph.Proofs.Store.Chronicle
/-!
Any store with a note of the calls that are made of it, each with its answer, the oldest first. The
calls that somebody has in mind are made one after another until one of them meets a fault.
-/

namespace RowGraph

variable {σ : Type}

def Call.key? : Call → Option Key
  | .get key => some key
  | .commit _ => none

namespace Event

def call : Event → Call
  | .got key _ => .get key
  | .committed op _ => .commit op

def fault? : Event → Option StoreError
  | .got _ (.error e) => some e
  | .committed _ (.error e) => some e
  | _ => none

def key? (event : Event) : Option Key := event.call.key?

end Event

structure Diary (σ : Type) where
  store : σ
  events : List Event := []

namespace Diary

-- The rows that have been read, in order.
def keys (n : Diary σ) : List Key := n.events.filterMap Event.key?

def got (key : Key) (n : Diary σ) (ran : Except StoreError (Option Entry) × σ) :
    Except StoreError (Option Entry) × Diary σ := (ran.1, ⟨ran.2, n.events ++ [.got key ran.1]⟩)

def committed (op : Operation) (n : Diary σ) (ran : Except StoreError (Option Versionstamp) × σ) :
    Except StoreError (Option Versionstamp) × Diary σ :=
  (ran.1, ⟨ran.2, n.events ++ [.committed op ran.1]⟩)

end Diary

def Backend.noted (b : Backend σ) : Backend (Diary σ) where
  get key n := n.got key (b.get key n.store)
  commit op n := n.committed op (b.commit op n.store)

-- Calls that are made in order, with what has been noted of them and the fault that has put an end
-- to them.
inductive Follows : List Call → List Event → Option StoreError → Prop where
  | done : Follows [] [] none
  | next {calls : List Call} {events : List Event} {fault : Option StoreError} (event : Event) :
      event.fault? = none → Follows calls events fault →
      Follows (event.call :: calls) (event :: events) fault
  | fault {calls : List Call} {e : StoreError} (event : Event) : event.fault? = some e →
      Follows (event.call :: calls) [event] (some e)

namespace Follows

variable {calls calls' : List Call} {events events' : List Event} {fault : Option StoreError}

theorem append (first : Follows calls events none) (rest : Follows calls' events' fault) :
    Follows (calls ++ calls') (events ++ events') fault := by
  generalize ended : (none : Option StoreError) = f at first
  induction first with
  | done => exact rest
  | next event fine _ ih => exact .next event fine (ih ended)
  | fault => cases ended

theorem stopped {e : StoreError} (follows : Follows calls events (some e)) (calls' : List Call) :
    Follows (calls ++ calls') events (some e) := by
  generalize ended : some e = f at follows
  induction follows with
  | done => cases ended
  | next event fine _ ih => exact .next event fine (ih ended)
  | fault event failed => exact .fault event failed

-- Without a fault every call has been made, once.
theorem all (follows : Follows calls events fault) (fine : ∀ event ∈ events, event.fault? = none) :
    events.map Event.call = calls ∧ fault = none := by
  induction follows with
  | done => exact ⟨rfl, rfl⟩
  | next event _ _ ih =>
    obtain ⟨same, none⟩ := ih fun event member => fine event (List.mem_cons_of_mem _ member)
    exact ⟨by rw [List.map_cons, same], none⟩
  | fault event failed => cases failed.symm.trans (fine event (List.mem_singleton_self event))

theorem keys {keys : List Key} (follows : Follows (keys.map .get) events fault)
    (fine : ∀ event ∈ events, event.fault? = none) : events.filterMap Event.key? = keys := by
  obtain ⟨same, _⟩ := follows.all fine
  have shown : events.filterMap Event.key? = (events.map Event.call).filterMap Call.key? :=
    List.filterMap_map.symm
  rw [shown, same, List.filterMap_map]
  exact List.filterMap_some

-- The same for reads in several rows.
theorem keys_flatten {lookups : α → List Key} {as : List α} {notes : List (List Event)}
    (each : List.Forall₂ (fun a events => ∃ fault, Follows ((lookups a).map .get) events fault) as notes)
    (fine : ∀ event ∈ notes.flatten, event.fault? = none) :
    notes.flatten.filterMap Event.key? = as.flatMap lookups := by
  induction each with
  | nil => rfl
  | cons first _ ih =>
    obtain ⟨fault, follows⟩ := first
    rw [List.flatten_cons] at fine ⊢
    rw [List.filterMap_append, List.flatMap_cons,
      follows.keys fun event member => fine event (List.mem_append_left _ member),
      ih fun event member => fine event (List.mem_append_right _ member)]

theorem asked (follows : Follows calls events fault) {event : Event} (member : event ∈ events) :
    event.call ∈ calls := by
  induction follows with
  | done => cases member
  | next first _ _ ih =>
    rcases List.mem_cons.mp member with rfl | later
    · exact List.mem_cons_self
    · exact List.mem_cons_of_mem _ (ih later)
  | fault last _ =>
    rw [List.mem_singleton.mp member]
    exact List.mem_cons_self

theorem met (follows : Follows calls events fault) {event : Event} (member : event ∈ events)
    {e : StoreError} (failed : event.fault? = some e) : fault = some e := by
  induction follows with
  | done => cases member
  | next first fine _ ih =>
    rcases List.mem_cons.mp member with rfl | later
    · cases fine.symm.trans failed
    · exact ih later
  | fault last failed' => rw [List.mem_singleton.mp member, failed'] at failed; exact failed

end Follows

end RowGraph
