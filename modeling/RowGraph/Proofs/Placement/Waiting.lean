import RowGraph.Proofs.Execution.Inquiry
import RowGraph.Proofs.Placement.Elements
import RowGraph.Proofs.Placement.Selections
import RowGraph.Proofs.Propagation.Delivery
/-!
What waits below a field. A resolver marks elements of its own list and nothing else, and a list
whose elements may be null takes every mark that was set for it. Main statements: the fields of an
object that is not the root leave no mark behind, and those of the root leave at most marks for
elements of their own lists.
-/

namespace RowGraph

variable {σ ε α β : Type}

-- Below a position only marks for elements of a list wait, and their errors have no position yet.
def Listed (p : Path) (marks : List (Path × Option ResponseError)) : Prop :=
  ∀ u mark, u ≠ [] → markAt marks (p ++ u) = some mark →
    (∃ i, u = [.index i]) ∧ ∀ e, mark = some e → e.path = []

namespace Listed

variable {p : Path} {r r' : Run σ}

theorem keep (aside : Aside p r r') {q : Path} (listed : Listed q r.marks) : Listed q r'.marks := by
  intro u mark inner found
  rcases aside.marks (q ++ u) with same | ⟨_, gone⟩
  · exact listed u mark inner (same ▸ found)
  · cases gone.symm.trans found

-- Nothing waits inside of what stands at an element.
theorem below {marks : List (Path × Option ResponseError)} (listed : Listed p marks) (s : Segment)
    {u : Path} (inner : u ≠ []) : markAt marks (p ++ [s] ++ u) = none := by
  cases found : markAt marks (p ++ [s] ++ u) with
  | none => rfl
  | some mark =>
    rw [List.append_assoc] at found
    obtain ⟨⟨i, same⟩, _⟩ := listed ([s] ++ u) mark (by simp) found
    exact absurd (List.cons.inj same).2 inner

theorem inner {marks : List (Path × Option ResponseError)} (listed : Listed p marks) (s : Segment) :
    Listed (p ++ [s]) marks := by
  intro u mark inner found
  cases (listed.below s inner).symm.trans found

-- It stays so while elements are marked.
theorem marked {marks marks' : List (Path × Option ResponseError)} (listed : Listed p marks)
    (marked : ∀ q, markAt marks' q = markAt marks q ∨ ∃ j e, q = p ++ [.index j] ∧
      markAt marks' q = some e ∧ ∀ e', e = some e' → e'.path = []) : Listed p marks' := by
  intro u mark inner found
  rcases marked (p ++ u) with same | ⟨j, e, place, there, free⟩
  · exact listed u mark inner (same ▸ found)
  · obtain rfl := Option.some.inj (there.symm.trans found)
    exact ⟨⟨j, List.append_cancel_left place⟩, free⟩

theorem loose {marks : List (Path × Option ResponseError)} (listed : Listed p marks) (s : Segment) :
    Loose (p ++ [s]) marks := by
  intro u e found
  rw [List.append_assoc] at found
  exact (listed _ _ (by simp) found).2 e rfl

-- Only indices are marked below a field.
theorem inward {marks : List (Path × Option ResponseError)} (listed : Listed p marks) {u : Path}
    (inward : Inward u) : markAt marks (p ++ u) = none := by
  obtain ⟨key, rest, rfl⟩ := inward
  cases found : markAt marks (p ++ .field key :: rest) with
  | none => rfl
  | some mark =>
    obtain ⟨⟨i, same⟩, _⟩ := listed _ mark (List.cons_ne_nil _ _) found
    cases (List.cons.inj same).1

end Listed

-- No mark is left behind below the position.
def Clears (p : Path) (x : Exec σ α) : Prop := ∀ r, Listed p r.marks → Aside p r (x r).2

namespace Clears

variable {p : Path}

theorem ofAsides {x : Exec σ α} (asides : Asides p x) : Clears p x := fun r _ => asides r

theorem bind {x : Exec σ α} {f : α → Exec σ β} (first : Clears p x) (rest : ∀ a, Clears p (f a)) :
    Clears p (x >>= f) := by
  intro r listed
  have start := first r listed
  rw [bind_apply]
  rcases ran : x r with ⟨e | a, r'⟩
  · rw [ran] at start
    exact start
  · rw [ran] at start
    exact start.trans (rest a r' (listed.keep start))

theorem map (f : α → β) {x : Exec σ α} (inside : Clears p x) : Clears p (f <$> x) := by
  rw [map_eq_pure_bind]
  exact inside.bind fun a => ofAsides (.pure (f a))

theorem guard (here : Path) (nullable : Bool) {x : Exec σ (Option Datum)} (inside : Clears p x) :
    Clears p (Exec.guard here nullable x) := by
  intro r listed
  have start := inside r listed
  unfold Exec.guard
  rcases ran : x r with ⟨e | d, r'⟩
  · rw [ran] at start
    cases nullable with
    | true => exact start.trans (.absorb p r' _)
    | false => exact start
  · rw [ran] at start
    exact start

theorem element (i : Nat) (nullable : Bool) {x : Exec σ (Option Datum)}
    (inside : Clears (p ++ [.index i]) x) :
    Clears p (Exec.element (p ++ [.index i]) nullable x) := by
  intro r listed
  have taken := Aside.takeMark p (.index i) r
  unfold Exec.element
  rw [bind_apply, lift_apply]
  generalize Exec.takeMark (p ++ [.index i]) r = w at taken ⊢
  rcases w with ⟨_ | _ | e, r'⟩
  · have inner := guard (p ++ [.index i]) nullable inside r' ((listed.keep taken).inner (.index i))
    exact taken.trans (inner.outer (.snoc p _))
  · cases nullable <;> exact taken
  · cases nullable with
    | true => exact taken.trans (.absorb p r' _)
    | false => exact taken

theorem elements (nullable : Bool) {body : Path → α → Exec σ (Option Datum)}
    (inside : ∀ i a, Clears (p ++ [.index i]) (body (p ++ [.index i]) a)) (as : List α)
    (index : Nat) : Clears p (Complete.elements nullable p body index as) := by
  induction as generalizing index with
  | nil => exact ofAsides (.pure _)
  | cons a rest ih =>
    refine (element index nullable (inside index a)).bind fun d => ?_
    exact (ih (index + 1)).bind fun ds => ofAsides (.pure _)

theorem value {object : Complete.ObjectData σ} {t : TypeDef} (objects : ∀ o, Clears p (object t o p))
    (loc : Location) (o : Outcome) : Clears p (Complete.value t object p loc o) := by
  unfold Complete.value
  split
  · exact objects o
  · unfold Complete.enumValue
    split
    · split
      · exact ofAsides (.pure _)
      · exact ofAsides (.throw _)
    · split
      · exact ofAsides (.pure _)
      · exact ofAsides (.throw _)
    · exact ofAsides (.throw _)
  · split
    · exact ofAsides (.pure _)
    · exact ofAsides (.throw _)

theorem absent (nonNull : Bool) (loc : Location) :
    Clears (σ := σ) p (Complete.absent nonNull p loc) := by
  cases nonNull with
  | true => exact ofAsides (.throw _)
  | false => exact ofAsides (.pure _)

theorem nothing (c : Catalog) (object : Complete.ObjectData σ) (type : TypeExpr) (loc : Location) :
    Clears p (Complete.outcome c object loc type p none) := by
  cases type with
  | named name nonNull => exact absent nonNull loc
  | list item nonNull => exact absent nonNull loc

theorem outcome {c : Catalog} {object : Complete.ObjectData σ} (type : TypeExpr)
    (objects : ∀ t o q, c.type? type.name = some t → Clears q (object t o q)) (loc : Location)
    (o : Option Outcome) : Clears p (Complete.outcome c object loc type p o) := by
  induction type generalizing p o with
  | named name nonNull =>
    cases o with
    | none => exact nothing c object _ loc
    | some o =>
      unfold Complete.outcome
      split
      · rename_i t known
        exact (value (fun o => objects t o p known) loc o).map some
      · exact ofAsides (.pure none)
  | list item nonNull ih =>
    cases o with
    | none => exact nothing c object _ loc
    | some o =>
      have each (items : List Outcome) : Clears p (Complete.elements item.nullable p
          (fun here o => Complete.outcome c object loc item here (some o)) 0 items) :=
        elements item.nullable (fun i o => ih objects (some o)) items 0
      unfold Complete.outcome
      split
      · exact (each _).map _
      · exact (each _).map _
      · exact ofAsides (.throw _)

end Clears

-- An element that has had its turn has no mark.
theorem element_taken {p : Path} {i : Nat} {x : Exec σ (Option Datum)}
    (inside : Clears (p ++ [.index i]) x) (nullable : Bool) {r : Run σ} (listed : Listed p r.marks) :
    markAt (Exec.element (p ++ [.index i]) nullable x r).2.marks (p ++ [.index i]) = none := by
  have taken := Aside.takeMark p (.index i) r
  obtain ⟨_, _, _, _, marks⟩ := Exec.takeMark_eq (p ++ [.index i]) r
  replace marks := marks (p ++ [.index i])
  rw [if_pos rfl] at marks
  unfold Exec.element
  rw [bind_apply, lift_apply]
  generalize Exec.takeMark (p ++ [.index i]) r = w at taken marks ⊢
  rcases w with ⟨_ | _ | e, r'⟩
  · have inner := Clears.guard (p ++ [.index i]) nullable inside r'
      ((listed.keep taken).inner (.index i))
    rcases inner.marks (p ++ [.index i]) with same | ⟨_, gone⟩
    · exact same.trans marks
    · exact gone
  · cases nullable <;> exact marks
  · cases nullable <;> exact marks

-- After the elements of a list that may be null, none of their marks waits any longer.
theorem elements_taken {p : Path} {body : Path → α → Exec σ (Option Datum)}
    (inside : ∀ i a, Clears (p ++ [.index i]) (body (p ++ [.index i]) a)) (as : List α)
    (index : Nat) {r : Run σ} (listed : Listed p r.marks) {i : Nat} (above : index ≤ i)
    (before : i < index + as.length) :
    markAt (Complete.elements true p body index as r).2.marks (p ++ [.index i]) = none := by
  induction as generalizing index r with
  | nil =>
    rw [List.length_nil] at before
    omega
  | cons a rest ih =>
    have start := Clears.element index true (inside index a) r listed
    have here := element_taken (inside index a) true listed
    obtain ⟨d, r₁, ran⟩ :=
      Exec.element_nullable (p ++ [.index index]) (body (p ++ [.index index]) a) r
    rw [ran] at start here
    have listed' := listed.keep start
    have later := Clears.elements true inside rest (index + 1) r₁ listed'
    have unfolded : (Complete.elements true p body index (a :: rest) r).2 =
        (Complete.elements true p body (index + 1) rest r₁).2 := by
      rw [Complete.elements, bind_apply, ran]
      simp only
      rw [bind_apply]
      rcases Complete.elements true p body (index + 1) rest r₁ with ⟨_ | _, _⟩ <;> rfl
    rw [unfolded]
    by_cases same : i = index
    · rw [same]
      rcases later.marks (p ++ [.index index]) with kept | ⟨_, gone⟩
      · exact kept.trans here
      · exact gone
    · rw [List.length_cons] at before
      exact ih (index + 1) listed' (by omega) (by omega)

namespace Resolve

-- A list whose elements may not be null is given up at the first broken one; none is marked.
theorem linkElements_required (path : Path) (loc : Location) (links : List Link) (index : Nat)
    (r : Run σ) (whole : ∀ link ∈ links, link ≠ .empty) :
    (linkElements path loc true index links r).2 = r := by
  induction links generalizing index with
  | nil => rfl
  | cons link rest ih =>
    have later := ih (index + 1) fun l member => whole l (List.mem_cons_of_mem _ member)
    cases link with
    | row o =>
      rw [linkElements, bind_apply]
      rcases ran : linkElements path loc true (index + 1) rest r with ⟨_ | _, r'⟩ <;> rw [ran] at later
      · exact later
      · exact later
    | empty => exact absurd rfl (whole _ List.mem_cons_self)
    | broken e => rfl

theorem follow_whole {b : Backend σ} (column table : String) (entry required : Bool)
    (v : Option Value) : Gives b (follow b column table entry required v) fun _ _ link =>
      required = true → link ≠ .empty := by
  unfold follow
  split
  · refine Gives.pure fun _ needed => ?_
    rw [if_pos needed]
    exact fun absurd => nomatch absurd
  · split
    · exact Gives.pure fun _ _ absurd => nomatch absurd
    · refine Gives.bind (Q := fun _ _ _ link => link ≠ .empty) (fetch_gives table _) (fun e? => ?_)
        fun _ _ _ _ _ _ _ _ whole _ => whole
      cases e? <;> exact Gives.pure fun _ absurd => nomatch absurd

theorem followAll_whole {b : Backend σ} (column table : String) (entry required : Bool)
    (vs : List Value) : Gives b (followAll b column table entry required vs) fun _ _ links =>
      ∀ link ∈ links, required = true → link ≠ .empty :=
  followAll_each table entry column required (follow_whole column table entry required) vs

end Resolve

theorem Sends.still {b : Backend σ} (still : b.Still) {s s' : σ} (sends : Sends b s [] s') :
    s' = s := by
  generalize none : [] = ops at sends
  induction sends with
  | nothing => rfl
  | get key _ ih => exact (still key _).trans (ih none)
  | commit op _ _ => simp at none

theorem Steady.aside {b : Backend σ} (still : b.Still) {r r' : Run σ} (steady : Steady b r r')
    (p : Path) : Aside p r r' :=
  ⟨steady.store.still still, steady.caught ▸ List.prefix_rfl, steady.absorbed ▸ List.prefix_rfl,
    fun distinct => steady.marks ▸ distinct, fun _ => .inl (by rw [steady.marks])⟩

theorem Steady.marking {b : Backend σ} (still : b.Still) {r r' r'' : Run σ} (steady : Steady b r r')
    {here : Path} {errors : Prop} {lo hi : Nat} (marking : Marking here errors lo hi r' r'') :
    Marking here errors lo hi r r'' :=
  ⟨marking.store.trans (steady.store.still still), marking.absorbed.trans steady.absorbed,
    marking.caught.trans steady.caught, fun distinct => marking.distinct (steady.marks ▸ distinct),
    fun q => steady.marks ▸ marking.marks q⟩

-- What a resolver hands over: marks are set for a list whose elements may be null, and for no other.
def Hints (here : Path) (resolver : Resolver) (y : Resolving σ (Option Outcome)) : Prop :=
  ∀ r, ∃ result r', y r = (result, r') ∧ (Aside here r r' ∨
    Lenient resolver ∧ ∃ os, result = .ok (some (.list os)) ∧ Marking here True 0 os.length r r')

namespace Hints

variable {here : Path} {resolver : Resolver}

theorem ofGives {b : Backend σ} (still : b.Still) {y : Resolving σ (Option Outcome)}
    {P : σ → σ → Option Outcome → Prop} (gives : Gives b y P) : Hints here resolver y :=
  fun r => ⟨_, _, rfl, .inl ((gives r).1.aside still here)⟩

theorem failed (e : GraphError) : Hints here resolver (throw e : Resolving σ (Option Outcome)) :=
  fun r => ⟨_, r, rfl, .inl (.refl here r)⟩

theorem parent (parent : Outcome) {f : Row → Resolving σ (Option Outcome)}
    (rest : ∀ row, Hints here resolver (f row)) :
    Hints here resolver ((liftM (Resolve.parentRow parent) : Resolving σ Row) >>= f) := by
  cases parent with
  | row row => exact rest row
  | leaf d => exact failed _
  | list items => exact failed _

variable {b : Backend σ} (still : b.Still)

include still

theorem links (column : String) {shape : FieldShape} {table : String} {required : Bool}
    (kind : shape.kind = .referenceList table required) (loc : Location) (items : List Value) :
    Hints here (.reference column shape)
      (Resolve.followAll b column table shape.entry required items >>= fun links =>
        Resolve.linkElements here loc required 0 links >>= fun os => pure (some (.list os))) := by
  intro r
  obtain ⟨steady, whole⟩ :=
    Resolve.followAll_whole (b := b) column table shape.entry required items r
  rw [bind_apply]
  generalize Resolve.followAll b column table shape.entry required items r = w at steady whole ⊢
  rcases w with ⟨e | links, r₁⟩
  · exact ⟨_, _, rfl, .inl (steady.aside still here)⟩
  · simp only
    rw [bind_apply]
    cases required with
    | true =>
      have kept := Resolve.linkElements_required here loc links 0 r₁
        fun link member => whole links rfl link member rfl
      generalize Resolve.linkElements here loc true 0 links r₁ = w at kept ⊢
      obtain ⟨result, r₂⟩ := w
      obtain rfl : r₂ = r₁ := kept
      cases result <;> exact ⟨_, _, rfl, .inl (steady.aside still here)⟩
    | false =>
      obtain ⟨result, r₂, ran, placed, marking⟩ :=
        Resolve.linkElements_marks here loc false links 0 r₁
      rw [ran]
      cases result with
      | error e => cases placed.fails e rfl
      | ok os =>
        refine ⟨_, r₂, rfl, .inr ⟨⟨column, shape, table, rfl, kind⟩, os, rfl, ?_⟩⟩
        rw [(placed.items os rfl).1]
        have marking := steady.marking still (marking.imp fun _ => trivial)
        rwa [Nat.zero_add] at marking

theorem reference (column : String) (shape : FieldShape) (loc : Location) (o : Outcome) :
    Hints here (.reference column shape) (Resolve.reference b column shape here loc o) := by
  refine parent o fun row => ?_
  split
  · exact failed _
  · refine ofGives still (Gives.bind (R := fun _ _ _ => True) (Q := fun _ _ _ _ => True)
      (Resolve.follow_whole column _ _ _ _) (fun link => ?_) fun _ _ _ _ _ _ _ _ _ => trivial)
    cases link with
    | row o => exact .pure fun _ => trivial
    | empty => exact .pure fun _ => trivial
    | broken e => exact .throw e
  · rename_i table required kind
    split
    · split
      · exact failed _
      · exact ofGives still (.pure (P := fun _ _ _ => True) fun _ => trivial)
    · exact links still column kind loc _
    · exact failed _

end Hints

-- What a resolver that starts from its parent row does.
theorem Execution.Calm.local_hints {x : Execution σ} (calm : x.Calm) {resolver : Resolver}
    (local_ : resolver.Local) (here : Path) (loc : Location) (arguments : Arguments)
    (parent : Outcome) :
    Hints here resolver (x.resolver here loc arguments parent resolver) := by
  have still := calm.still
  cases local_ with
  | column name => exact .ofGives still (.lift (P := fun _ _ _ => True) fun _ _ _ => trivial)
  | value => exact .ofGives still (.lift (P := fun _ _ _ => True) fun _ _ _ => trivial)
  | reference column shape => exact .reference still column shape loc parent

theorem Marking.listed {here : Path} {errors : Prop} {lo hi : Nat} {r r' : Run σ}
    (marking : Marking here errors lo hi r r') (listed : Listed here r.marks) :
    Listed here r'.marks := by
  refine listed.marked fun q => (marking.marks q).imp_right ?_
  rintro ⟨j, e, _, _, place, there, free⟩
  exact ⟨j, e, place, there, fun e' same => (free e' same).2⟩

-- A list whose elements may be null takes all marks that were set for it.
theorem Marking.consumed {here : Path} {r r' r'' : Run σ} {n : Nat}
    (marking : Marking here True 0 n r r') (aside : Aside here r' r'')
    (taken : ∀ i, i < n → markAt r''.marks (here ++ [.index i]) = none) : Aside here r r'' := by
  refine ⟨aside.store.trans marking.store, marking.caught ▸ aside.caught,
    marking.absorbed ▸ aside.absorbed, fun distinct => aside.distinct (marking.distinct distinct),
    fun q => ?_⟩
  rcases marking.marks q with same | ⟨j, _, _, before, rfl, _, _⟩
  · exact same ▸ aside.marks q
  · exact .inr ⟨.snoc here _, taken j before⟩

-- What is made of a list that a resolver has marked elements of takes all of their marks.
theorem Marking.outcome {c : Catalog} {object : Complete.ObjectData σ} {item : TypeExpr}
    {nonNull : Bool} (nullable : item.nullable = true)
    (objects : ∀ t o q, c.type? item.name = some t → Clears q (object t o q)) (loc : Location)
    {here : Path} {os : List Outcome} {r r' : Run σ} (listed : Listed here r.marks)
    (marking : Marking here True 0 os.length r r') :
    Aside here r
      (Complete.outcome c object loc (.list item nonNull) here (some (.list os)) r').2 := by
  have listed' := marking.listed listed
  have clears : Clears here (Complete.outcome c object loc (.list item nonNull) here
      (some (.list os))) := Clears.outcome (.list item nonNull) objects loc _
  refine marking.consumed (clears r' listed') fun i before => ?_
  unfold Complete.outcome
  dsimp only
  rw [map_apply, nullable]
  exact elements_taken (fun i o => Clears.outcome item objects loc (some o)) os 0 listed'
    (Nat.zero_le i) (by omega)

namespace Execution.Calm

variable {x : Execution σ} (calm : x.Calm)

include calm

-- A field of an object that is not the root leaves no mark behind.
theorem field_clears {type : TypeDef} (inner : x.schema.Inner type) {f : FieldDef}
    (declared : type.field? f.name = some f) (head : FieldHead) {object : Complete.ObjectData σ}
    (objects : ∀ t o q, x.schema.Inner t → Clears q (object t o q)) (parent : Outcome) (p : Path) :
    Clears p (x.field type parent p head object f) := by
  have grounded := calm.built.grounded
  have reads : Asides p (x.arguments f head) := .bind (.lift _) fun _ => .pure _
  refine (Clears.ofAsides reads).bind fun arguments => .guard _ _ fun r listed => ?_
  have here := listed.inner (.field head.key)
  refine .outer (.snoc p (.field head.key)) ?_
  have ran := x.declaredField_declared type.name f.name (p ++ [.field head.key]) head.loc arguments
    parent r
  rw [bind_apply]
  generalize x.declaredField type.name f.name (p ++ [.field head.key]) head.loc arguments parent r = w
    at ran ⊢
  cases ran with
  | refused _ steady _ => exact steady.aside calm.still _
  | unserved _ steady =>
    have aside := steady.aside calm.still (p ++ [.field head.key])
    exact aside.trans (Clears.nothing _ _ _ _ _ (here.keep aside))
  | @resolved r' r'' resolver result _ resolves steady ran _ =>
    have shows (t : TypeDef) (o : Outcome) (q : Path)
        (known : x.schema.catalog.type? f.type.name = some t) : Clears q (object t o q) :=
      objects t o q (grounded.inner_of_field inner.known declared resolves known)
    have local_ := grounded.local_of_inner inner resolves
    have start := steady.aside calm.still (p ++ [.field head.key])
    have here := here.keep start
    obtain ⟨_, _, ran', hint⟩ := calm.local_hints local_ (p ++ [.field head.key]) head.loc
      arguments parent r'
    obtain ⟨rfl, rfl⟩ := Prod.mk.inj (ran.symm.trans ran')
    refine start.trans ?_
    rcases hint with aside | ⟨lenient, os, rfl, marking⟩
    · cases result with
      | error e => exact aside
      | ok o => exact aside.trans (Clears.outcome f.type shows head.loc o r'' (here.keep aside))
    · obtain ⟨item, nonNull, listed, nullable⟩ :=
        grounded.lenient inner.known declared resolves lenient
      rw [listed] at shows ⊢
      exact marking.outcome nullable shows head.loc here

end Execution.Calm

mutual

-- Nor does any selection on such an object.
theorem Execution.Calm.selection_clears {x : Execution σ} (calm : x.Calm) {type : TypeDef}
    (inner : x.schema.Inner type) (parent : Outcome) (p : Path) :
    ∀ n : Node, Clears p (x.selection type parent p n)
  | .group condition _ children => by
    rw [Execution.selection]
    split
    · exact calm.selections_clears inner parent p children
    · exact .ofAsides (.pure [])
  | .field head children => by
    rw [Execution.selection]
    split
    · exact .ofAsides (.pure _)
    · have aside : x.entrance? type head.name = none := by
        rw [Execution.entrance?, inner.entrances calm.built]
        rfl
      rw [aside]
      cases declared : type.field? head.name with
      | none => exact .ofAsides (.pure [])
      | some f =>
        have named : f.name = head.name := by simpa using List.find?_some declared
        refine (calm.field_clears inner (named ▸ declared) head ?_ parent p).bind
          fun d => .ofAsides (.pure _)
        exact fun t o q inner => (calm.selections_clears inner o q children).map _

theorem Execution.Calm.selections_clears {x : Execution σ} (calm : x.Calm) {type : TypeDef}
    (inner : x.schema.Inner type) (parent : Outcome) (p : Path) :
    ∀ nodes : List Node, Clears p (x.selections type parent p nodes)
  | [] => by
    rw [Execution.selections]
    exact .ofAsides (.pure [])
  | n :: rest => by
    rw [Execution.selections]
    refine (calm.selection_clears inner parent p n).bind fun results => ?_
    exact (calm.selections_clears inner parent p rest).bind fun more => .ofAsides (.pure _)

end

-- At the root only marks for elements of its own fields wait.
def Orderly (marks : List (Path × Option ResponseError)) : Prop :=
  ∀ key, Listed [.field key] marks

-- The order is kept, and what only reads leaves the store as it is.
structure Upkeep (reads : Prop) (r r' : Run σ) : Prop where
  store : reads → r'.store = r.store
  orderly : Orderly r.marks → Orderly r'.marks

theorem Upkeep.trans {reads : Prop} {r r' r'' : Run σ} (first : Upkeep reads r r')
    (second : Upkeep reads r' r'') : Upkeep reads r r'' :=
  ⟨fun still => (second.store still).trans (first.store still), second.orderly ∘ first.orderly⟩

theorem Aside.upkeep {reads : Prop} {p : Path} {r r' : Run σ} (aside : Aside p r r') :
    Upkeep reads r r' :=
  ⟨fun _ => aside.store, fun orderly key => (orderly key).keep aside⟩

-- From whatever orderly state it starts.
def Upkeeps (reads : Prop) (x : Exec σ α) : Prop :=
  ∀ r, Orderly r.marks → Upkeep reads r (x r).2

namespace Upkeeps

variable {reads : Prop}

theorem ofAsides {p : Path} {x : Exec σ α} (asides : Asides p x) : Upkeeps reads x :=
  fun r _ => (asides r).upkeep

theorem bind {x : Exec σ α} {f : α → Exec σ β} (first : Upkeeps reads x)
    (rest : ∀ a, Upkeeps reads (f a)) : Upkeeps reads (x >>= f) := by
  intro r orderly
  have start := first r orderly
  rw [bind_apply]
  rcases ran : x r with ⟨e | a, r'⟩
  · rw [ran] at start
    exact start
  · rw [ran] at start
    exact start.trans (rest a r' (start.orderly orderly))

theorem guard (here : Path) (nullable : Bool) {x : Exec σ (Option Datum)} (inside : Upkeeps reads x) :
    Upkeeps reads (Exec.guard here nullable x) := by
  intro r orderly
  have start := inside r orderly
  unfold Exec.guard
  rcases ran : x r with ⟨e | d, r'⟩
  · rw [ran] at start
    cases nullable with
    | true => exact ⟨start.store, start.orderly⟩
    | false => exact start
  · rw [ran] at start
    exact start

end Upkeeps

namespace Resolved

variable {b : Backend σ} {here : Path} {resolver : Resolver} {ops : List Operation} {r r' : Run σ}
  {result : Except GraphError (Option Outcome)}

-- A resolver marks elements of its own list at most.
theorem listed (resolved : Resolved b here resolver ops r result r')
    (listed : Listed here r.marks) : Listed here r'.marks := by
  refine listed.marked fun q => (resolved.marks q).imp_right ?_
  rintro ⟨j, e, place, there, free⟩
  exact ⟨j, e, place, there, fun e' same => (free e' same).1⟩

theorem orderly {key : String} (resolved : Resolved b [.field key] resolver ops r result r')
    (orderly : Orderly r.marks) : Orderly r'.marks := by
  intro other
  by_cases same : other = key
  · rw [same]
    exact resolved.listed (orderly key)
  · intro u mark inner found
    rcases resolved.marks ([.field other] ++ u) with kept | ⟨_, _, place, _, _⟩
    · exact orderly other u mark inner (kept ▸ found)
    · exact absurd (Segment.field.inj (List.cons.inj place).1) same

theorem still (resolved : Resolved b here resolver ops r result r') (still : b.Still)
    (none : ops = []) : r'.store = r.store := by
  have sent := resolved.store
  rw [none] at sent
  exact sent.still still

end Resolved

-- Only a mutation sends anything.
theorem Resolver.sends_nil {resolver : Resolver} (reads : ∀ plan, resolver ≠ .mutation plan)
    (arguments : Arguments) : resolver.sends arguments = [] := by
  cases resolver with
  | mutation plan => exact absurd rfl (reads plan)
  | _ => rfl

namespace Execution.Calm

variable {x : Execution σ} (calm : x.Calm)

include calm

-- A field of the root leaves marks behind for elements of its own list at most.
theorem field_upkeeps {root : TypeDef} (known : x.schema.catalog.type? root.name = some root)
    {f : FieldDef} (declared : root.field? f.name = some f) (head : FieldHead)
    {object : Complete.ObjectData σ}
    (objects : ∀ t o q, x.schema.Inner t → Clears q (object t o q)) (parent : Outcome) :
    Upkeeps (Unwriting x.schema root) (x.field root parent [] head object f) := by
  have grounded := calm.built.grounded
  have reads : Asides [] (x.arguments f head) := .bind (.lift _) fun _ => .pure _
  refine (Upkeeps.ofAsides reads).bind fun arguments => .guard _ _ fun r orderly => ?_
  simp only [List.nil_append]
  have ran := x.declaredField_declared root.name f.name [.field head.key] head.loc arguments parent r
  rw [bind_apply]
  generalize x.declaredField root.name f.name [.field head.key] head.loc arguments parent r = w
    at ran ⊢
  cases ran with
  | refused _ steady _ => exact (steady.aside calm.still [.field head.key]).upkeep
  | unserved _ steady =>
    have aside := steady.aside calm.still [.field head.key]
    exact (aside.trans (Clears.nothing _ _ _ _ _ ((orderly head.key).keep aside))).upkeep
  | @resolved r' r'' resolver result _ resolves steady _ resolved =>
    have shows (t : TypeDef) (o : Outcome) (q : Path)
        (found : x.schema.catalog.type? f.type.name = some t) : Clears q (object t o q) :=
      objects t o q (grounded.inner_of_field known declared resolves found)
    have hooked : Upkeep (Unwriting x.schema root) r r' :=
      (steady.aside calm.still [.field head.key]).upkeep
    have start : Upkeep (Unwriting x.schema root) r r'' := by
      refine hooked.trans ⟨fun unwriting => ?_, resolved.orderly⟩
      refine resolved.still calm.still (Resolver.sends_nil ?_ arguments)
      rintro plan rfl
      exact unwriting.reads f.name ⟨plan, resolves⟩
    cases result with
    | error e => exact start
    | ok o =>
      have later := Clears.outcome f.type shows head.loc o r'' (start.orderly orderly head.key)
      exact start.trans later.upkeep

end Execution.Calm

mutual

theorem Execution.Calm.selection_upkeeps {x : Execution σ} (calm : x.Calm) {root : TypeDef}
    (known : x.schema.catalog.type? root.name = some root) (parent : Outcome) :
    ∀ n : Node, Upkeeps (Unwriting x.schema root) (x.selection root parent [] n)
  | .group condition _ children => by
    rw [Execution.selection]
    split
    · exact calm.selections_upkeeps known parent children
    · exact .ofAsides (p := []) (.pure [])
  | .field head children => by
    rw [Execution.selection]
    split
    · exact .ofAsides (p := []) (.pure _)
    · cases x.entrance? root head.name with
      | some f =>
        have described := Asides.enterDescription x [] head f children
        exact (Upkeeps.ofAsides described).bind fun d => .ofAsides (p := []) (.pure _)
      | none =>
        cases declared : root.field? head.name with
        | none => exact .ofAsides (p := []) (.pure [])
        | some f =>
          have named : f.name = head.name := by simpa using List.find?_some declared
          refine (calm.field_upkeeps known (named ▸ declared) head ?_ parent).bind
            fun d => .ofAsides (p := []) (.pure _)
          exact fun t o q inner => (calm.selections_clears inner o q children).map _

theorem Execution.Calm.selections_upkeeps {x : Execution σ} (calm : x.Calm) {root : TypeDef}
    (known : x.schema.catalog.type? root.name = some root) (parent : Outcome) :
    ∀ nodes : List Node, Upkeeps (Unwriting x.schema root) (x.selections root parent [] nodes)
  | [] => by
    rw [Execution.selections]
    exact .ofAsides (p := []) (.pure [])
  | n :: rest => by
    rw [Execution.selections]
    refine (calm.selection_upkeeps known parent n).bind fun results => ?_
    exact (calm.selections_upkeeps known parent rest).bind fun more => .ofAsides (p := []) (.pure _)

end

end RowGraph
