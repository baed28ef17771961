import RowGraph.Proofs.Language.Names
import RowGraph.Proofs.Reference.Selections
/-!
The fields of the root, with and without marks. They are taken one after another, those inside of
groups as if they stood alone. Only here marks are left behind, by a list that was given up at an
element that may not be null; a later field is as it is without marks if none of these waits below a
key at which it looks. Main statement: if no field meets a mark that an earlier one has left behind,
they all are.
-/

namespace RowGraph

variable {σ α : Type}

-- The selection that asks for a field and for nothing else.
def Choice.node (l : Choice) : Node := .field l.1 l.2

-- One after another, until something fails.
def Exec.inTurn (f : Choice → Exec σ (List α)) : List Choice → Exec σ (List α)
  | [] => pure []
  | l :: rest => do
    let results ← f l
    let more ← inTurn f rest
    pure (results ++ more)

-- Selections are taken in order, and groups of them that apply are opened.
structure Opens (type : String) (one : Node → Exec σ (List α)) (all : List Node → Exec σ (List α)) :
    Prop where
  nil : all [] = pure []
  cons : ∀ n rest, all (n :: rest) = (do
    let results ← one n
    let more ← all rest
    pure (results ++ more))
  group : ∀ condition directives children, one (.group condition directives children) =
    if Execution.applies type condition then all children else pure []

namespace Exec

variable {f : Choice → Exec σ (List α)}

theorem inTurn_append (before after : List Choice) : inTurn f (before ++ after) = (do
    let results ← inTurn f before
    let more ← inTurn f after
    pure (results ++ more)) := by
  induction before with
  | nil => simp [inTurn]
  | cons l rest ih => simp [inTurn, ih, List.append_assoc, bind_assoc, -bind_pure_comp]

theorem inTurn_cons {l : Choice} {rest : List Choice} {all : List α} {r t : Run σ} :
    inTurn f (l :: rest) r = (.ok all, t) ↔ ∃ results s more, f l r = (.ok results, s) ∧
      inTurn f rest s = (.ok more, t) ∧ results ++ more = all := by
  rw [inTurn, bind_apply]
  constructor
  · intro taken
    rcases first : f l r with ⟨_ | results, s⟩
    · rw [first] at taken
      cases taken
    · simp only [first, bind_apply] at taken
      rcases later : inTurn f rest s with ⟨_ | more, u⟩
      · rw [later] at taken
        cases taken
      · rw [later] at taken
        obtain ⟨same, rfl⟩ := Prod.mk.inj taken
        exact ⟨results, s, more, rfl, later, Except.ok.inj same⟩
  · rintro ⟨results, s, more, first, later, rfl⟩
    simp only [first, bind_apply, later]
    rfl

end Exec

namespace Opens

variable {type : String} {one : Node → Exec σ (List α)} {all : List Node → Exec σ (List α)}

mutual

theorem node (opens : Opens type one all) : ∀ n : Node,
    one n = Exec.inTurn (one ∘ Choice.node) (Node.shownBy type n)
  | .field head children => by
    simp [Node.shownBy, Exec.inTurn, Choice.node]
  | .group condition directives children => by
    rw [opens.group, Node.shownBy]
    split
    · exact nodes opens children
    · rfl

theorem nodes (opens : Opens type one all) : ∀ nodes : List Node,
    all nodes = Exec.inTurn (one ∘ Choice.node) (Node.shown type nodes)
  | [] => opens.nil
  | n :: rest => by
    rw [opens.cons, Node.shown, Exec.inTurn_append, node opens n, nodes opens rest]

end

end Opens

theorem Execution.opens (x : Execution σ) (type : TypeDef) (parent : Outcome) (path : Path) :
    Opens type.name (x.selection type parent path) (x.selections type parent path) :=
  ⟨selections.eq_1 .., selections.eq_2 x type parent path, selection.eq_1 x type parent path⟩

theorem Direct.opens (x : Execution σ) (type : TypeDef) (parent : Outcome) (path : Path) :
    Opens type.name (selection x type parent path) (selections x type parent path) :=
  ⟨selections.eq_1 .., selections.eq_2 x type parent path, selection.eq_1 x type parent path⟩

-- The keys at which a field of the root looks for marks: its own, or those that it asks for in the
-- description of the schema.
def Execution.watched (x : Execution σ) (root : TypeDef) (l : Choice) : List String :=
  match x.entrance? root l.1.name with
  | some f => (Node.shown f.type.name l.2).map Choice.key
  | none => [l.key]

-- Marks that are left all wait for elements of lists that the root has under some keys.
def Left (keys : List String) (marks : List (Path × Option ResponseError)) : Prop :=
  ∀ q, markAt marks q ≠ none → ∃ key ∈ keys, ∃ i, q = [.field key, .index i]

namespace Left

variable {keys : List String} {marks later : List (Path × Option ResponseError)} {key : String}

theorem nothing : Left [] [] := fun _ waits => absurd rfl waits

theorem free (left : Left keys marks) (gone : ∀ i, markAt marks [.field key, .index i] = none)
    (q : Path) (below : Below [.field key] q) : markAt marks q = none := by
  by_contra waits
  obtain ⟨key', _, i, rfl⟩ := left q waits
  obtain ⟨s, rest, same⟩ := below
  obtain ⟨rfl, _⟩ : key' = key ∧ _ := by simpa using same
  exact waits (gone i)

theorem apart (left : Left keys marks) (other : key ∉ keys) (i : Nat) :
    markAt marks [.field key, .index i] = none := by
  by_contra waits
  obtain ⟨key', member, j, same⟩ := left _ waits
  obtain rfl : key = key' := Segment.field.inj (List.cons.inj same).1
  exact other member

-- A field may leave marks under its own key.
theorem after (left : Left keys marks)
    (others : ∀ q, (∀ i, q ≠ [.field key, .index i]) → markAt later q = markAt marks q) :
    Left (key :: keys) later := by
  intro q waits
  by_cases own : ∃ i, q = [.field key, .index i]
  · exact ⟨key, List.mem_cons_self, own⟩
  · rw [others q fun i same => own ⟨i, same⟩] at waits
    obtain ⟨key', member, i, same⟩ := left q waits
    exact ⟨key', List.mem_cons_of_mem _ member, i, same⟩

end Left

theorem Node.shown_map (type : String) (choices : List Choice) :
    Node.shown type (choices.map Choice.node) = choices := by
  induction choices with
  | nil => rfl
  | cons l rest ih => simp [Node.shown, Node.shownBy, Choice.node, ih]

theorem Execution.selections_map (x : Execution σ) (type : TypeDef) (parent : Outcome) (path : Path)
    (choices : List Choice) : x.selections type parent path (choices.map Choice.node) =
      Exec.inTurn (x.selection type parent path ∘ Choice.node) choices := by
  rw [(x.opens type parent path).nodes, Node.shown_map]

-- No field of the root looks for marks where an earlier one has left one.
def Execution.Undisturbed (x : Execution σ) (root : TypeDef) (choices : List Choice) (r : Run σ) :
    Prop :=
  ∀ before l after, choices = before ++ l :: after → ∀ results s,
    x.selections root .root [] (before.map Choice.node) r = (.ok results, s) →
    ∀ key ∈ x.watched root l, ∀ i, markAt s.marks [.field key, .index i] = none

namespace Execution.Undisturbed

variable {x : Execution σ} {root : TypeDef} {l : Choice} {rest : List Choice} {r s : Run σ}

theorem head (undisturbed : x.Undisturbed root (l :: rest) r) :
    ∀ key ∈ x.watched root l, ∀ i, markAt r.marks [.field key, .index i] = none :=
  undisturbed [] l rest rfl [] r (by rw [selections_map]; rfl)

theorem tail (undisturbed : x.Undisturbed root (l :: rest) r) {results : List (String × Datum)}
    (ran : x.selection root .root [] l.node r = (.ok results, s)) : x.Undisturbed root rest s := by
  intro before l' after split more t taken
  rw [selections_map] at taken
  refine undisturbed (l :: before) l' after (congrArg (l :: ·) split) (results ++ more) t ?_
  rw [selections_map]
  exact Exec.inTurn_cons.mpr ⟨results, s, more, ran, taken, rfl⟩

theorem cons (here : ∀ key ∈ x.watched root l, ∀ i, markAt r.marks [.field key, .index i] = none)
    (later : ∀ results s, x.selection root .root [] l.node r = (.ok results, s) →
      x.Undisturbed root rest s) : x.Undisturbed root (l :: rest) r := by
  intro before l' after split all t taken
  rw [selections_map] at taken
  cases before with
  | nil =>
    obtain ⟨rfl, _⟩ := List.cons.inj split
    obtain ⟨_, rfl⟩ := Prod.mk.inj taken
    exact here
  | cons l'' before =>
    obtain ⟨rfl, suffix⟩ := List.cons.inj split
    obtain ⟨results, s, more, first, taken, _⟩ := Exec.inTurn_cons.mp taken
    refine later results s first before l' after suffix more t ?_
    rw [selections_map]
    exact taken

end Execution.Undisturbed

namespace Direct

variable {x x' : Execution σ} {root : TypeDef} {keys : List String}

-- A field of the root that finds no marks where it looks. It leaves none elsewhere than in its list.
theorem choice_mirrors (built : x.schema.Built)
    (known : x.schema.catalog.type? root.name = some root) {l : Choice}
    (kin : Kin x x' l.node.arguments) {r r' : Run σ} (store : r'.store = r.store)
    (bare : r'.marks = []) (left : Left keys r.marks)
    (free : ∀ key ∈ x.watched root l, ∀ i, markAt r.marks [.field key, .index i] = none) :
    let w := x.selection root .root [] l.node r
    Mirrored ((x.entrance? root l.1.name).isSome = true) r r' w
        (selection x' root .root [] l.node r') ∧
      ∀ q, (∀ i, q ≠ [.field l.key, .index i]) → markAt w.2.marks q = markAt r.marks q := by
  obtain ⟨head, children⟩ := l
  unfold Execution.watched at free
  unfold Choice.node at kin ⊢
  dsimp only at kin free ⊢
  rw [Execution.selection, selection]
  have entrance : x'.entrance? root head.name = x.entrance? root head.name := by
    rw [Execution.entrance?, kin.schema]
    rfl
  have level {needs : Path → Prop} (away : ∀ q, needs q → markAt r.marks q = none) :
      Level needs r r' := ⟨store, bare, away⟩
  have idle : Level (fun _ => False) r r' := level fun _ => False.elim
  rw [entrance]
  split
  · exact ⟨.idle idle _, fun _ _ => rfl⟩
  · cases entered : x.entrance? root head.name with
    | some f =>
      rw [entered] at free
      have description : Mirrors True
          (fun q => ∃ l ∈ Node.shown f.type.name children, Below [.field l.key] q)
          (x.enterDescription [] head f children) (x'.enterDescription [] head f children) :=
        .enterDescription kin entered fun l member q below => ⟨l, member, below⟩
      obtain ⟨mirrored, keeps⟩ := (description.bind fun d => .pure _) r r' (level (by
        rintro q ⟨l, member, below⟩
        exact left.free (free l.key (List.mem_map_of_mem member)) q below))
      exact ⟨mirrored.imp fun _ => rfl, fun q _ => keeps q⟩
    | none =>
      rw [entered] at free
      cases declared : root.field? head.name with
      | none => exact ⟨.idle idle _, fun _ _ => rfl⟩
      | some f =>
        have named : f.name = head.name := by simpa using List.find?_some declared
        have objects (t : TypeDef) (o : Outcome) (q : Path) (inner : x.schema.Inner t) :=
          (selections_mirrors built inner o q children kin.right).map Datum.ofResults
        obtain ⟨mirrored, others, _⟩ := field_mirrors built.grounded known (named ▸ declared)
          kin.left objects .root [] (level (left.free (free head.key (by simp [Choice.key]))))
        simp only [bind_pure_comp, map_apply]
        refine ⟨(mirrored.map_result _).imp False.elim, fun q away => ?_⟩
        exact others q fun i => away i

-- Fields that do not look below the keys of earlier ones do not meet their marks.
theorem undisturbed_of_apart (built : x.schema.Built)
    (known : x.schema.catalog.type? root.name = some root) {choices : List Choice} {r : Run σ}
    (left : Left keys r.marks)
    (fresh : ∀ l ∈ choices, ∀ key ∈ x.watched root l, key ∉ keys)
    (apart : choices.Pairwise fun l l' => l.key ∉ x.watched root l') :
    x.Undisturbed root choices r := by
  induction choices generalizing keys r with
  | nil =>
    intro before l after split
    exact absurd split (by simp)
  | cons l rest ih =>
    obtain ⟨later, apart⟩ := List.pairwise_cons.mp apart
    have free (key : String) (looked : key ∈ x.watched root l) (i : Nat) :
        markAt r.marks [.field key, .index i] = none :=
      left.apart (fresh l List.mem_cons_self key looked) i
    refine .cons free fun results s ran => ?_
    have store : ({ store := r.store } : Run σ).store = r.store := rfl
    obtain ⟨_, others⟩ := choice_mirrors built known (.refl x _) store rfl left free
    rw [ran] at others
    refine ih (left.after others) (fun l' member key looked absurd => ?_) apart
    rcases List.mem_cons.mp absurd with rfl | earlier
    · exact later l' member looked
    · exact fresh l' (List.mem_cons_of_mem _ member) key looked earlier

-- All of them, one after another.
theorem inTurn_mirrors (built : x.schema.Built)
    (known : x.schema.catalog.type? root.name = some root) (choices : List Choice) {r r' : Run σ}
    (store : r'.store = r.store) (bare : r'.marks = []) (left : Left keys r.marks)
    (undisturbed : x.Undisturbed root choices r) :
    Mirrored True r r' (Exec.inTurn (x.selection root .root [] ∘ Choice.node) choices r)
      (Exec.inTurn (selection x root .root [] ∘ Choice.node) choices r') := by
  induction choices generalizing keys r r' with
  | nil =>
    have level : Level (fun _ => False) r r' := ⟨store, bare, fun _ => False.elim⟩
    exact .idle level _
  | cons l rest ih =>
    obtain ⟨first, others⟩ := choice_mirrors built known (.refl x _) store bare left
      undisturbed.head
    unfold Exec.inTurn
    apply (first.imp fun _ => trivial).bind
    intro results s s' ran ran'
    rw [ran, ran'] at first
    rw [ran] at others
    have later := ih first.store first.bare (left.after others) (undisturbed.tail ran)
    apply later.bind
    intro more t t' ran ran'
    rw [ran, ran'] at later
    have level : Level (fun _ => False) t t' := ⟨later.store, later.bare, fun _ => False.elim⟩
    exact .idle level _

end Direct

end RowGraph
