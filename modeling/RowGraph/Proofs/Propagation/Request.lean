import RowGraph.Proofs.Propagation.Watch
import RowGraph.Proofs.Schema.Built
/-!
Requests with a record of what they do: what a request answers and what it leaves is read off the
record, and a request that does not come to be run leaves the store as it was and shows no data.
-/

namespace RowGraph

variable {σ : Type}

namespace Schema

variable {s : Schema} {b : Backend σ} {request : Request} {store : σ}
  {w : Watch σ (List (String × Datum))}

-- A request that is prepared and has a root answers by what was seen of it.
theorem execute_run {m : Request.Measured} {root : TypeDef} (prepared : request.prepare s = .ok m)
    (rooted : (s.catalog.root? m.operation.kind).bind s.catalog.type? = some root) :
    let w := (⟨s, b, m.operation.variableDefs, request.values⟩ : Execution σ).watch root m.nodes store
    s.execute b request store = ⟨some w.response, w.run.store, w.run.calls⟩ := by
  unfold execute
  rw [prepared]
  simp only [rooted]
  rw [Execution.run_watch]

theorem watch?_run {m : Request.Measured} {root : TypeDef} (prepared : request.prepare s = .ok m)
    (rooted : (s.catalog.root? m.operation.kind).bind s.catalog.type? = some root) :
    s.watch? b request store =
      some ((⟨s, b, m.operation.variableDefs, request.values⟩ : Execution σ).watch root m.nodes
        store) := by
  unfold watch?
  rw [prepared]
  simp only [Except.toOption, Option.bind_some, rooted, Option.map_some]

theorem watch?_some (watched : s.watch? b request store = some w) :
    ∃ m root, request.prepare s = .ok m ∧
      (s.catalog.root? m.operation.kind).bind s.catalog.type? = some root ∧
      (⟨s, b, m.operation.variableDefs, request.values⟩ : Execution σ).watch root m.nodes store =
        w := by
  obtain ⟨m, prepared, ran⟩ := Option.bind_eq_some_iff.mp watched
  obtain ⟨root, rooted, same⟩ := Option.map_eq_some_iff.mp ran
  exact ⟨m, root, ok_of_toOption prepared, rooted, same⟩

theorem execute_watch (watched : s.watch? b request store = some w) :
    (s.execute b request store).store = w.run.store := by
  obtain ⟨m, root, prepared, rooted, rfl⟩ := watch?_some watched
  rw [execute_run prepared rooted]

theorem execute_unwatched (unwatched : s.watch? b request store = none) :
    (s.execute b request store).store = store := by
  unfold execute
  unfold watch? at unwatched
  cases prepared : request.prepare s with
  | error refusal => cases refusal <;> rfl
  | ok m =>
    rw [prepared] at unwatched
    simp only [Except.toOption, Option.bind_some, Option.map_eq_none_iff] at unwatched
    simp only [unwatched]

-- A request that does not come to be run shows no data.
theorem execute_refused (unwatched : s.watch? b request store = none)
    {response : Response} (answered : (s.execute b request store).response = some response) :
    response.data = .null := by
  unfold execute at answered
  unfold watch? at unwatched
  cases prepared : request.prepare s with
  | error refusal =>
    rw [prepared] at answered
    cases refusal with
    | malformed => cases answered
    | errors errors =>
      obtain rfl := Option.some.inj answered
      rfl
  | ok m =>
    rw [prepared] at unwatched answered
    simp only [Except.toOption, Option.bind_some, Option.map_eq_none_iff] at unwatched
    simp only [unwatched] at answered
    obtain rfl := Option.some.inj answered
    rfl

end Schema

end RowGraph
