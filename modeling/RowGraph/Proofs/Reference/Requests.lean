import RowGraph.Proofs.Placement.Ways
import RowGraph.Proofs.Reference.Root
/-!
Requests with and without marks. Main statement: a request whose fields meet no marks that earlier
ones have left behind is answered as by an execution that hands on with each list what became of its
elements.
-/

namespace RowGraph

variable {σ : Type}

namespace Direct

variable {x : Execution σ} {root : TypeDef}

theorem run_mirrors (built : x.schema.Built)
    (known : x.schema.catalog.type? root.name = some root) {nodes : List Node} {store : σ}
    (undisturbed : x.Undisturbed root (Node.shown root.name nodes) { store }) :
    run x root nodes store =
      ((x.run root nodes store).1, { (x.run root nodes store).2 with marks := [] }) := by
  have same := (inTurn_mirrors built known (Node.shown root.name nodes) rfl rfl .nothing
    undisturbed).same
  rw [← (x.opens root .root []).nodes, ← (opens x root .root []).nodes] at same
  unfold run Execution.run ExceptT.run
  rw [same]
  rcases x.selections root .root [] nodes { store } with ⟨_ | _, _⟩ <;> rfl

end Direct

variable {s : Schema} {request : Request} {m : Request.Measured} {root : TypeDef}

theorem marks_unobserved (built : s.Built) (b : Backend σ) (prepared : request.prepare s = .ok m)
    (rooted : (s.catalog.root? m.operation.kind).bind s.catalog.type? = some root) {store : σ}
    (undisturbed : (⟨s, b, m.operation.variableDefs, request.values⟩ : Execution σ).Undisturbed root
      (Node.shown root.name m.nodes) { store }) :
    s.execute b request store = s.direct b request store ∧
      ∀ p q : Path, p.Asked m.nodes → q.Asked m.nodes →
        p.map Segment.text = q.map Segment.text → p = q := by
  obtain ⟨name, _, found⟩ := Option.bind_eq_some_iff.mp rooted
  constructor
  · unfold Schema.execute Schema.direct
    rw [prepared]
    simp only [rooted]
    rw [Direct.run_mirrors built (Catalog.type?_name found) undisturbed]
  · intro p q asked asked' same
    exact (Request.prepare_keyed prepared).texts_inj asked asked' same

-- A list that is given up next to one with a row that is not there.
def asideRequest : Request :=
  { source := Overview.ask "query" [Overview.ask "k: strict(ids: [8, 9])" ["id"],
      Overview.ask "l: books(ids: [1, 8])" ["title"]] }

theorem aside_marks_unobserved : ∃ (s : Schema) (m : Request.Measured) (root : TypeDef), s.Built ∧
    asideRequest.prepare s = .ok m ∧
    (s.catalog.root? m.operation.kind).bind s.catalog.type? = some root ∧
    (⟨s, Memory.backend, m.operation.variableDefs, asideRequest.values⟩ :
      Execution Memory).Undisturbed root (Node.shown root.name m.nodes) { store := strictStore } ∧
    s.execute Memory.backend asideRequest strictStore =
      s.direct Memory.backend asideRequest strictStore ∧
    ((s.direct Memory.backend asideRequest strictStore).response.map fun r =>
      ((r.data.at? [.field "k"]).any Datum.isNull, (r.data.at? [.field "l", .index 0]).any Datum.isNull,
        (r.data.at? [.field "l", .index 1]).any Datum.isNull)) = some (true, false, true) := by
  have ready : (Session.build {} strictShelf []).toOption.any (fun s =>
      (asideRequest.prepare s).toOption.any fun m =>
      ((s.catalog.root? m.operation.kind).bind s.catalog.type?).any fun root =>
      let x : Execution Memory := ⟨s, Memory.backend, m.operation.variableDefs, asideRequest.values⟩
      decide (
        (Node.shown root.name m.nodes).Pairwise (fun l l' => l.key ∉ x.watched root l') ∧
        ((s.direct Memory.backend asideRequest strictStore).response.map fun r =>
          ((r.data.at? [.field "k"]).any Datum.isNull,
            (r.data.at? [.field "l", .index 0]).any Datum.isNull,
            (r.data.at? [.field "l", .index 1]).any Datum.isNull)) = some (true, false, true))) =
      true := by
    decide +kernel
  obtain ⟨s, made, ready⟩ := (Option.any_eq_true _ _).mp ready
  obtain ⟨m, prepared, ready⟩ := (Option.any_eq_true _ _).mp ready
  obtain ⟨root, rooted, ready⟩ := (Option.any_eq_true _ _).mp ready
  obtain ⟨apart, shown⟩ := of_decide_eq_true ready
  have built : s.Built := ⟨{}, strictShelf, [], ok_of_toOption made⟩
  obtain ⟨name, _, found⟩ := Option.bind_eq_some_iff.mp rooted
  have undisturbed := Direct.undisturbed_of_apart (r := { store := strictStore }) built
    (Catalog.type?_name found) .nothing (by simp) apart
  have prepared := ok_of_toOption prepared
  exact ⟨s, m, root, built, prepared, rooted, undisturbed,
    (marks_unobserved built Memory.backend prepared rooted undisturbed).1, shown⟩

-- Where one key is asked for several times, a mark that was left behind can be found.
example : ((Session.build {} strictShelf []).toOption.bind fun s =>
    (s.direct Memory.backend strictRequest strictStore).response.map fun r =>
      ((r.data.at? [.field "k", .index 0, .field "id"]).isSome,
        (r.data.at? [.field "k", .index 1, .field "id"]).isSome, r.errors.map (·.path))) =
    some (true, true, [[.field "k", .index 0]]) := by
  decide +kernel

end RowGraph
