import RowGraph.Proofs.Hooks.Fields
import RowGraph.Proofs.Reference.Requests
/-!
Queries, next to the same queries without some hooks. At the root marks may be left behind, so the
fields there are taken one after another, and none may look where an earlier one has left a mark.
Main statement: unless an error of a refused field has left the response altogether, both responses
have the same at all positions, but for those that such errors have nulled.
-/

namespace RowGraph

variable {σ α : Type}

namespace Execution.Undisturbed

variable {x : Execution σ} {root : TypeDef} {first more : List Choice} {r s : Run σ}

theorem left (undisturbed : x.Undisturbed root (first ++ more) r) : x.Undisturbed root first r := by
  rintro before l after rfl results s ran
  exact undisturbed before l (after ++ more) (by simp) results s ran

theorem right (undisturbed : x.Undisturbed root (first ++ more) r) {results : List (String × Datum)}
    (ran : x.selections root .root [] (first.map Choice.node) r = (.ok results, s)) :
    x.Undisturbed root more s := by
  rintro before l after rfl all t taken
  refine undisturbed (first ++ before) l after (by simp) (results ++ all) t ?_
  rw [Execution.selections_map] at ran taken
  rw [Execution.selections_map, Exec.inTurn_append, bind_apply, ran]
  dsimp only
  rw [bind_apply, taken]
  rfl

end Execution.Undisturbed

namespace Execution

variable {x : Execution σ} {hooks : HookMap} (calm : x.Calm) (calm' : (x.rehook hooks).Calm)
  (stricter : x.schema.Stricter hooks) {root : TypeDef} (unwriting : Unwriting x.schema root)

include calm calm' stricter unwriting

theorem choice_likewise {l : Choice} {keys : List String} {r r' : Run σ} (store : r'.store = r.store)
    (bare : r'.marks = []) (left : Left keys r.marks)
    (free : ∀ key ∈ x.watched root l, ∀ i, markAt r.marks [.field key, .index i] = none) :
    Likewise (x.schema.Bars hooks) (fun hit => Datum.MembersOff hit []) r r'
      (x.watchSelection root .root [] l.node r)
      (Direct.selection (x.rehook hooks) root .root [] l.node r') := by
  obtain ⟨head, children⟩ := l
  have kindred : x.Kindred (x.rehook hooks) := ⟨⟨rfl, rfl⟩, rfl, rfl, rfl⟩
  unfold watched at free
  unfold Choice.node
  dsimp only at free ⊢
  rw [watchSelection, Direct.selection, kindred.entrance?]
  split
  · exact .pure store bare fun _ => .cons (.refl _ _) .nil
  · cases entered : x.entrance? root head.name with
    | some f =>
      rw [entered] at free
      have description : Mirrors True
          (fun q => ∃ l ∈ Node.shown f.type.name children, Below [.field l.key] q)
          (x.enterDescription [] head f children) (x.enterDescription [] head f children) :=
        .enterDescription (.refl x _) entered fun l member q below => ⟨l, member, below⟩
      obtain ⟨mirrored, _⟩ := description r r' ⟨store, bare, by
        rintro q ⟨l, member, below⟩
        exact left.free (free l.key (List.mem_map_of_mem member)) q below⟩
      dsimp only
      rw [kindred.describes [] head f children]
      exact (Likewise.description mirrored).member
    | none =>
      rw [entered] at free
      cases declared : root.field? head.name with
      | none => exact .pure store bare fun _ => .nil
      | some f =>
        have named : f.name = head.name := by simpa using List.find?_some declared
        have shows : x.ShowsLikewise hooks (x.schema.Bars hooks) children := by
          intro t o q s s' inside level
          exact (selections_likewise calm calm' stricter inside o q children level).map _
            fun _ _ _ members => .ofResults members
        have level : Level (Below [.field head.key]) r r' :=
          ⟨store, bare, left.free (free head.key (by simp [Choice.key]))⟩
        exact (field_likewise calm calm' unwriting.known (named ▸ declared) stricter shows
          unwriting.reads .root [] head level).member

end Execution

mutual

theorem Execution.root_likewise {x : Execution σ} {hooks : HookMap} (calm : x.Calm)
    (calm' : (x.rehook hooks).Calm) (stricter : x.schema.Stricter hooks) {root : TypeDef}
    (unwriting : Unwriting x.schema root) : ∀ (n : Node) {keys : List String} {r r' : Run σ},
    r'.store = r.store → r'.marks = [] → Left keys r.marks →
    x.Undisturbed root (Node.shownBy root.name n) r →
    Likewise (x.schema.Bars hooks) (fun hit => Datum.MembersOff hit []) r r'
        (x.watchSelection root .root [] n r) (Direct.selection (x.rehook hooks) root .root [] n r') ∧
      ∃ keys', Left keys' (x.watchSelection root .root [] n r).run.marks
  | .group condition directives children, keys, r, r', store, bare, left, undisturbed => by
    rw [Execution.watchSelection, Direct.selection]
    rw [Node.shownBy] at undisturbed
    split
    · rename_i applies
      rw [if_pos applies] at undisturbed
      exact roots_likewise calm calm' stricter unwriting children store bare left undisturbed
    · exact ⟨.pure store bare fun _ => .nil, keys, left⟩
  | .field head children, keys, r, r', store, bare, left, undisturbed => by
    rw [Node.shownBy] at undisturbed
    refine ⟨choice_likewise calm calm' stricter unwriting (l := (head, children)) store bare left
      undisturbed.head, head.key :: keys, ?_⟩
    have level : ({ store := r.store } : Run σ).store = r.store := rfl
    obtain ⟨_, others⟩ := Direct.choice_mirrors (l := (head, children)) calm.built unwriting.known
      (.refl x _) level rfl left undisturbed.head
    rw [Records.selection x root .root [] (Choice.node (head, children)) r] at others
    exact left.after others

theorem Execution.roots_likewise {x : Execution σ} {hooks : HookMap} (calm : x.Calm)
    (calm' : (x.rehook hooks).Calm) (stricter : x.schema.Stricter hooks) {root : TypeDef}
    (unwriting : Unwriting x.schema root) : ∀ (nodes : List Node) {keys : List String} {r r' : Run σ},
    r'.store = r.store → r'.marks = [] → Left keys r.marks →
    x.Undisturbed root (Node.shown root.name nodes) r →
    Likewise (x.schema.Bars hooks) (fun hit => Datum.MembersOff hit []) r r'
        (x.watchSelections root .root [] nodes r)
        (Direct.selections (x.rehook hooks) root .root [] nodes r') ∧
      ∃ keys', Left keys' (x.watchSelections root .root [] nodes r).run.marks
  | [], keys, r, r', store, bare, left, _ => by
    rw [Execution.watchSelections, Direct.selections]
    exact ⟨.pure store bare fun _ => .nil, keys, left⟩
  | n :: rest, keys, r, r', store, bare, left, undisturbed => by
    rw [Execution.watchSelections, Direct.selections]
    rw [Node.shown] at undisturbed
    obtain ⟨first, keys', left'⟩ :=
      root_likewise calm calm' stricter unwriting n store bare left undisturbed.left
    have later (results : List (String × Datum))
        (taken : (x.watchSelection root .root [] n r).result = .ok results) :
        x.Undisturbed root (Node.shown root.name rest) (x.watchSelection root .root [] n r).run := by
      have ran : x.selections root .root [] ((Node.shownBy root.name n).map Choice.node) r =
          (.ok results, (x.watchSelection root .root [] n r).run) := by
        rw [x.selections_map, ← (x.opens root .root []).node, Records.selection,
          Watch.erase_ok taken]
      exact undisturbed.right ran
    refine ⟨.both (Datum.members_monotone []) (Datum.members_monotone [])
      (fun _ _ _ _ _ first more => first.append more) first fun results taken store bare =>
        (roots_likewise calm calm' stricter unwriting rest store bare left' (later results taken)).1,
      ?_⟩
    cases taken : (x.watchSelection root .root [] n r).result with
    | error fault =>
      rw [Watched.bind_of_error taken]
      exact ⟨keys', left'⟩
    | ok results =>
      have level : ({ store := (x.watchSelection root .root [] n r).run.store } : Run σ).store =
          (x.watchSelection root .root [] n r).run.store := rfl
      obtain ⟨_, last⟩ := roots_likewise calm calm' stricter unwriting rest level rfl left'
        (later results taken)
      rw [Watched.bind_of_ok taken]
      have run := (Watched.map_record (results ++ ·) (x.watchSelections root .root [] rest)
        (x.watchSelection root .root [] n r).run).1
      rw [Watched.map_eq_bind] at run
      rwa [← run] at last

end

-- Two responses with the same at all positions, but for what is inside of positions that were hit.
structure Response.Spares (hit : Path → Prop) (response response' : Response) : Prop where
  data : ∀ q, (∀ u, u <+: q → ¬ hit u) →
    (response'.data.at? q).map Datum.front = (response.data.at? q).map Datum.front
  errors : ErrorsOff hit response.errors response'.errors

-- All errors that have been noted since both have started.
theorem Grown.errors {hit : Path → Prop} {r s s' : Run σ} (grown : Grown hit r r s s') :
    ErrorsOff hit (s.caught ++ s.absorbed) (s'.caught ++ s'.absorbed) := by
  obtain ⟨es, es', absorbed, absorbed', off⟩ := grown.absorbed
  obtain ⟨cs, caught, caught'⟩ := grown.caught
  rw [caught, caught', absorbed, absorbed']
  exact (ErrorsOff.refl _).append ((ErrorsOff.refl _).append off)

theorem Execution.run_spares {x : Execution σ} {hooks : HookMap} (calm : x.Calm)
    (calm' : (x.rehook hooks).Calm) (stricter : x.schema.Stricter hooks) {root : TypeDef}
    (unwriting : Unwriting x.schema root) {nodes : List Node} {store : σ}
    (undisturbed : x.Undisturbed root (Node.shown root.name nodes) { store })
    (undisturbed' : (x.rehook hooks).Undisturbed root (Node.shown root.name nodes) { store }) :
    let w := x.watch root nodes store
    ((∃ e, Lost (x.schema.Bars hooks) w.seen e) ∧ w.response.data = .null) ∨
      Response.Spares (Nulled (x.schema.Bars hooks) w.seen) w.response
        ((x.rehook hooks).run root nodes store).1 := by
  have likewise := (roots_likewise calm calm' stricter unwriting nodes rfl rfl .nothing
    undisturbed).1
  have direct := congrArg Prod.fst
    (Direct.run_mirrors calm'.built unwriting.known undisturbed')
  rw [← direct]
  unfold Direct.run ExceptT.run watch Watch.response
  generalize x.watchSelections root .root [] nodes { store } = w at likewise
  generalize Direct.selections (x.rehook hooks) root .root [] nodes { store } = y at likewise ⊢
  cases likewise with
  | ok alike grown =>
    refine .inr ⟨fun q free => ?_, grown.errors⟩
    exact (Datum.AgreesOff.ofResults alike).at? q free
  | failed grown => exact .inr ⟨fun _ _ => rfl, .both grown.errors⟩
  | lost _ lost => exact .inl ⟨⟨_, lost⟩, rfl⟩

end RowGraph
