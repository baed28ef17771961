import RowGraph.Proofs.Execution.Inquiry
import RowGraph.Proofs.Execution.Reading
import RowGraph.Proofs.Mutation.Items
import RowGraph.Proofs.Validation.Reports
import RowGraph.Proofs.Schema.Finished
import RowGraph.Execution.Selections
/-!
Faults of the program itself, and computations that bring none about. Main statements: looking rows
up, sending a mutation and describing the schema never fail with one.
-/

namespace RowGraph

variable {σ α β : Type}

def ResponseError.Internal (e : ResponseError) : Prop := e.code = some "InternalError"

namespace ResponseError

theorem Bare.external {e : ResponseError} (bare : e.Bare) : ¬ e.Internal := by
  simp [Internal, bare.code]

theorem raisedAt_internal (e : GraphError) (loc : Location) :
    (e.raisedAt loc).Internal ↔ e.Internal := by
  simp [Internal, GraphError.Internal, GraphError.raisedAt]

theorem located_internal (p : Path) (e : ResponseError) :
    (Exec.located p e).Internal ↔ e.Internal := by
  unfold Exec.located
  split <;> rfl

end ResponseError

-- Nothing that a request has noted so far speaks of such a fault.
structure Run.Mild (r : Run σ) : Prop where
  absorbed : ∀ e ∈ r.absorbed, ¬ e.Internal
  caught : ∀ e ∈ r.caught, ¬ e.Internal
  marks : ∀ q e, markAt r.marks q = some (some e) → ¬ e.Internal

namespace Run.Mild

variable {r : Run σ}

theorem start (store : σ) : ({ store } : Run σ).Mild :=
  ⟨by simp, by simp, by simp [markAt]⟩

theorem absorb (mild : r.Mild) {e : ResponseError} (external : ¬ e.Internal) :
    Run.Mild { r with absorbed := r.absorbed ++ [e] } := by
  refine ⟨fun e' member => ?_, mild.caught, mild.marks⟩
  rcases List.mem_append.mp member with old | new
  · exact mild.absorbed e' old
  · rwa [List.mem_singleton.mp new]

theorem stop (mild : r.Mild) {e : ResponseError} (external : ¬ e.Internal) :
    Run.Mild { r with caught := r.caught ++ [e] } := by
  refine ⟨mild.absorbed, fun e' member => ?_, mild.marks⟩
  rcases List.mem_append.mp member with old | new
  · exact mild.caught e' old
  · rwa [List.mem_singleton.mp new]

theorem takeMark (mild : r.Mild) (p : Path) : (Exec.takeMark p r).2.Mild := by
  obtain ⟨_, _, absorbed, caught, marks⟩ := Exec.takeMark_eq p r
  refine ⟨absorbed ▸ mild.absorbed, caught ▸ mild.caught, fun q e found => ?_⟩
  rw [marks] at found
  split at found
  · cases found
  · exact mild.marks q e found

-- While rows are looked up nothing is noted.
theorem steady {b : Backend σ} {r' : Run σ} (mild : r.Mild) (steady : Steady b r r') : r'.Mild :=
  ⟨steady.absorbed ▸ mild.absorbed, steady.caught ▸ mild.caught, steady.marks ▸ mild.marks⟩

end Run.Mild

-- A computation that never fails with a fault of the program.
def Polite (x : Resolving σ α) : Prop := ∀ r e, (x r).1 = .error e → ¬ e.Internal

namespace Polite

theorem pure (a : α) : Polite (Pure.pure a : Resolving σ α) := fun _ _ absurd => nomatch absurd

theorem throw {e : GraphError} (external : ¬ e.Internal) :
    Polite (MonadExcept.throw e : Resolving σ α) := by
  intro r e' failed
  rwa [← Except.error.inj failed]

theorem lift {x : Except GraphError α} (external : ∀ e, x = .error e → ¬ e.Internal) :
    Polite (liftM x : Resolving σ α) := by
  intro r e failed
  cases x with
  | ok a => cases failed
  | error e' => exact external e (congrArg Except.error (Except.error.inj failed))

theorem bind {x : Resolving σ α} {f : α → Resolving σ β} (first : Polite x)
    (rest : ∀ a, Polite (f a)) : Polite (x >>= f) := by
  intro r e failed
  rw [bind_apply] at failed
  rcases ran : x r with ⟨e' | a, r'⟩
  · obtain rfl : e' = e := by
      rw [ran] at failed
      exact Except.error.inj failed
    exact first r e' (by rw [ran])
  · rw [ran] at failed
    exact rest a r' e failed

end Polite

-- Neither a fault of the store nor a request that a resolver turns down is a fault of the program.
theorem GraphError.store_external (e : StoreError) : ¬ (GraphError.store e).Internal := by
  simp [internal_iff]

theorem ResolveProblem.error_external (p : ResolveProblem) : ¬ p.error.Internal := by
  simp [ResolveProblem.error, GraphError.internal_iff]

namespace Value

-- A stored value that cannot be shown has a number in it that is not finite.
def Shows (x : Except GraphError α) : Prop :=
  ∀ e, x = .error e → ∃ f, e = (ResolveProblem.notFinite f).error

theorem Shows.ok (a : α) : Shows (.ok a) := fun _ absurd => nomatch absurd

theorem Shows.map {x : Except GraphError α} (shows : Shows x) (f : α → β) : Shows (x.map f) := by
  intro e failed
  cases x with
  | ok a => cases failed
  | error e' => exact shows e (congrArg Except.error (Except.error.inj failed))

theorem Shows.bind {γ : Type} {x : Except GraphError α} {y : Except GraphError β} (left : Shows x)
    (right : Shows y) (f : α → β → γ) :
    Shows (x >>= fun a => y >>= fun b => Except.ok (f a b)) := by
  cases x with
  | error e' => exact fun e failed => left e (congrArg Except.error (Except.error.inj failed))
  | ok a => exact right.map (f a)

mutual

theorem toDatum_shows : ∀ v : Value, Shows v.toDatum
  | .none | .null | .bool _ | .int _ | .string _ => by rw [toDatum]; exact .ok _
  | .float f => by
    rw [toDatum]
    split
    · exact .ok _
    · exact fun e failed => ⟨f, (Except.error.inj failed).symm⟩
  | .array items => by
    rw [toDatum]
    exact (toDatumItems_shows items).map _
  | .object columns => by
    rw [toDatum]
    exact (toDatumColumns_shows columns).map _

theorem toDatumItems_shows : ∀ items : List Value, Shows (toDatumItems items)
  | [] => by rw [toDatumItems]; exact .ok _
  | v :: rest => by
    rw [toDatumItems]
    exact (toDatum_shows v).bind (toDatumItems_shows rest) List.cons

theorem toDatumColumns_shows : ∀ columns : List (String × Value), Shows (toDatumColumns columns)
  | [] => by rw [toDatumColumns]; exact .ok _
  | (name, v) :: rest => by
    rw [toDatumColumns]
    exact (toDatum_shows v).bind (toDatumColumns_shows rest) fun d ds => (name, d) :: ds

end

end Value

namespace Resolve

theorem fetch_polite (b : Backend σ) (key : Key) : Polite (fetch b key) := by
  intro r e failed
  unfold fetch at failed
  rcases found : b.get key r.store with ⟨e' | _, _⟩
  · rw [found] at failed
    rw [← Except.error.inj failed]
    exact GraphError.store_external e'
  · rw [found] at failed
    cases failed

theorem rootRow_polite (b : Backend σ) (argument table : String) (entry : Bool) (d : Datum) :
    Polite (rootRow b argument table entry d) := by
  refine .bind (.lift fun e failed => ?_) fun id => .bind (fetch_polite b _) fun e => .pure _
  unfold argumentId at failed
  split at failed
  · cases failed
  · rw [← Except.error.inj failed]
    exact ResolveProblem.error_external _

theorem rootRows_polite (b : Backend σ) (argument table : String) (entry : Bool) (ds : List Datum) :
    Polite (rootRows b argument table entry ds) := by
  induction ds with
  | nil => exact .pure _
  | cons d rest ih =>
    have later (row : Option Outcome) := ih.bind fun rows => .pure (row :: rows)
    unfold rootRows
    dsimp only
    split
    · exact (Polite.pure none).bind later
    · exact (rootRow_polite b argument table entry d).bind later

-- What following a reference comes to: a row, nothing where nothing is asked for, or a problem with
-- the data.
inductive Followed (entry required : Bool) : Link → Prop where
  | row (e : Entry) : Followed entry required (.row (e.outcome entry))
  | empty : required = false → Followed entry required .empty
  | broken {e : GraphError} : ¬ e.Internal → Followed entry required (.broken e)

variable {b : Backend σ} (column table : String) (entry required : Bool)

theorem follow_followed (v : Option Value) :
    Gives b (follow b column table entry required v) fun _ _ => Followed entry required := by
  unfold follow
  split
  · refine .pure fun _ => ?_
    cases required with
    | true => exact .broken (by simp [GraphError.internal_iff])
    | false => exact .empty rfl
  · split
    · rename_i e failed
      refine .pure fun _ => .broken ?_
      unfold referencedId at failed
      split at failed
      · cases failed
      · rw [← Except.error.inj failed]
        simp [GraphError.internal_iff]
    · refine Gives.bind (Q := fun _ _ _ => Followed entry required) (fetch_gives table _) (fun e? => ?_)
        fun _ _ _ _ _ _ _ _ followed => followed
      cases e? with
      | none => exact .pure fun _ => .broken (by simp [GraphError.internal_iff])
      | some e => exact .pure fun _ => .row e

theorem followAll_followed (vs : List Value) :
    Gives b (followAll b column table entry required vs) fun _ _ links =>
      ∀ link ∈ links, Followed entry required link :=
  followAll_each table entry column required (follow_followed column table entry required) vs

theorem follow_polite (v : Option Value) : Polite (follow b column table entry required v) := by
  unfold follow
  split
  · exact .pure _
  · split
    · exact .pure _
    · refine .bind (fetch_polite b _) fun e? => ?_
      cases e? <;> exact .pure _

theorem followAll_polite (vs : List Value) :
    Polite (followAll b column table entry required vs) := by
  induction vs with
  | nil => exact .pure _
  | cons v rest ih =>
    exact (follow_polite column table entry required _).bind fun link => ih.bind fun links => .pure _

end Resolve

theorem Commit.mutation_polite (b : Backend σ) (plan : MutationPlan) (arguments : Arguments) :
    Polite (mutation b plan arguments) := by
  have sent (op : Operation) : Polite (send b op) := by
    intro r e failed
    unfold send at failed
    rcases answer : b.commit op r.store with ⟨e' | _, _⟩
    · rw [answer] at failed
      rw [← Except.error.inj failed]
      exact GraphError.store_external e'
    · rw [answer] at failed
      cases failed
  have collected (input : List (String × Datum)) :
      Polite (liftM (operation plan input) : Resolving σ Operation) := by
    refine .lift fun e failed => ?_
    unfold operation at failed
    rcases allAsk_or_flaw (items plan.bindings input) with ⟨ws, asks⟩ | ⟨p, flaw⟩
    · rw [addItems_of_asks asks] at failed
      cases failed
    · rw [addItems_of_flaw flaw] at failed
      rw [← Except.error.inj failed]
      exact ResolveProblem.error_external p
  have committed (op : Operation) : Polite (if op.isEmpty then pure none
      else send b op >>= fun stamp => pure (stamp.map (result plan)) : Resolving σ (Option Outcome)) := by
    split
    · exact .pure none
    · exact (sent op).bind fun stamp => .pure _
  unfold mutation
  dsimp only
  split
  · exact (Polite.pure _).bind fun input => (collected input).bind committed
  · exact (Polite.throw (ResolveProblem.error_external _)).bind fun input =>
      (collected input).bind committed

-- A computation that brings no fault of the program about, and lets none out.
def Mildly (x : Exec σ α) : Prop :=
  ∀ r, r.Mild → (x r).2.Mild ∧ ∀ e, (x r).1 = .error e → ¬ e.Internal

namespace Mildly

theorem pure (a : α) : Mildly (Pure.pure a : Exec σ α) :=
  fun _ mild => ⟨mild, fun _ absurd => nomatch absurd⟩

theorem throw {e : ResponseError} (external : ¬ e.Internal) :
    Mildly (MonadExcept.throw e : Exec σ α) := by
  intro r mild
  refine ⟨mild, fun e' failed => ?_⟩
  rwa [← Except.error.inj failed]

theorem lift {x : Except ResponseError α} (external : ∀ e, x = .error e → ¬ e.Internal) :
    Mildly (liftM x : Exec σ α) := by
  cases x with
  | ok a => exact pure a
  | error e => exact throw (external e rfl)

theorem bind {x : Exec σ α} {f : α → Exec σ β} (first : Mildly x) (rest : ∀ a, Mildly (f a)) :
    Mildly (x >>= f) := by
  intro r mild
  have start := first r mild
  rw [bind_apply]
  rcases ran : x r with ⟨e | a, r'⟩
  · rw [ran] at start
    exact ⟨start.1, fun e' failed => start.2 e' (congrArg _ (Except.error.inj failed))⟩
  · rw [ran] at start
    exact rest a r' start.1

theorem map (f : α → β) {x : Exec σ α} (inside : Mildly x) : Mildly (f <$> x) := by
  rw [map_eq_pure_bind]
  exact inside.bind fun a => pure (f a)

theorem absorb (p : Path) (nullable : Bool) {e : ResponseError} (external : ¬ e.Internal) :
    Mildly (Exec.absorb p nullable e : Exec σ (Option Datum)) := by
  have located : ¬ (Exec.located p e).Internal := mt (ResponseError.located_internal p e).mp external
  cases nullable with
  | true => exact fun r mild => ⟨mild.absorb located, fun _ absurd => nomatch absurd⟩
  | false => exact throw located

theorem guard (p : Path) (nullable : Bool) {x : Exec σ (Option Datum)} (inside : Mildly x) :
    Mildly (Exec.guard p nullable x) := by
  intro r mild
  have start := inside r mild
  unfold Exec.guard
  rcases ran : x r with ⟨e | d, r'⟩
  · rw [ran] at start
    exact absorb p nullable (start.2 e rfl) r' start.1
  · rw [ran] at start
    exact ⟨start.1, fun _ absurd => nomatch absurd⟩

theorem catching (nullable : Bool) {x : Exec σ (Option Datum)} (inside : Mildly x) :
    Mildly (Exec.catching nullable x) := by
  intro r mild
  have start := inside r mild
  unfold Exec.catching
  rcases ran : x r with ⟨e | d, r'⟩
  · rw [ran] at start
    have external := start.2 e rfl
    cases nullable with
    | true => exact ⟨start.1.stop external, fun _ absurd => nomatch absurd⟩
    | false => exact throw external r' start.1
  · rw [ran] at start
    exact ⟨start.1, fun _ absurd => nomatch absurd⟩

theorem relocated (p : Path) {x : Exec σ α} (inside : Mildly x) : Mildly (Exec.relocated p x) := by
  intro r mild
  have start := inside r mild
  unfold Exec.relocated
  rw [adapt_apply]
  refine ⟨start.1, fun e failed => ?_⟩
  cases result : (x r).1 with
  | ok a =>
    rw [result] at failed
    cases failed
  | error e' =>
    rw [result] at failed
    obtain rfl := Except.error.inj failed
    exact start.2 e' result

theorem element (p : Path) (nullable : Bool) {x : Exec σ (Option Datum)} (inside : Mildly x) :
    Mildly (Exec.element p nullable x) := by
  intro r mild
  have taken := mild.takeMark p
  have found := (Exec.takeMark_eq p r).1
  unfold Exec.element
  rw [bind_apply, lift_apply]
  generalize Exec.takeMark p r = w at taken found ⊢
  obtain ⟨mark, r'⟩ := w
  match mark, found with
  | none, _ => exact guard p nullable inside r' taken
  | some none, _ =>
    have missing : ¬ Exec.missingElement.Internal := ResponseError.Bare.external ⟨rfl, rfl⟩
    cases nullable with
    | true => exact pure none r' taken
    | false => exact absorb p false missing r' taken
  | some (some e), found => exact absorb p nullable (mild.marks p e found.symm) r' taken

theorem elements (nullable : Bool) (p : Path) {body : Path → α → Exec σ (Option Datum)}
    (inside : ∀ q a, Mildly (body q a)) (as : List α) (index : Nat) :
    Mildly (Complete.elements nullable p body index as) := by
  induction as generalizing index with
  | nil => exact pure _
  | cons a rest ih =>
    refine (element _ nullable (inside _ a)).bind fun d => ?_
    exact (ih (index + 1)).bind fun ds => pure _

theorem fittingArguments (x : Execution σ) (head : FieldHead) (known : List InputDef) :
    Mildly (x.fittingArguments head known) := by
  induction known with
  | nil => exact pure _
  | cons d rest ih =>
    rw [Execution.fittingArguments]
    cases head.arguments.find? fun a => a.name = d.name with
    | none => exact ih
    | some a =>
      refine bind (lift fun e failed => (Execution.argumentValue_error failed).external) fun value => ?_
      split
      · exact throw (ResponseError.Bare.external ⟨rfl, rfl⟩)
      · exact ih.bind fun more => pure _

theorem answered {part : Described → Path → Exec σ Datum} (inside : ∀ d q, Mildly (part d q))
    (p : Path) (answer : Option Described.Answer) :
    Mildly (Execution.answered part p answer) := by
  cases answer with
  | none => exact pure _
  | some answer =>
    cases answer with
    | leaf d => exact pure _
    | part d => exact (inside d p).map _
    | leaves ds => exact (elements false p (fun _ d => pure (some d)) ds 0).map _
    | parts ds =>
      exact (elements false p (fun here d => relocated here ((inside d here).map some)) ds 0).map _

theorem question (x : Execution σ) (d : Described) (p : Path) (head : FieldHead)
    {part : Described → Path → Exec σ Datum} (inside : ∀ d q, Mildly (part d q)) :
    Mildly (x.question d p head part) := by
  unfold Execution.question
  simp only
  split
  · exact throw (ResponseError.Bare.external ⟨rfl, rfl⟩)
  · refine guard _ _ ?_
    split
    · exact pure _
    · refine bind (fittingArguments x head _) fun _ => ?_
      exact catching _ (answered inside _ _)

mutual

theorem inquireOne (x : Execution σ) (d : Described) (p : Path) : ∀ n : Node,
    Mildly (x.inquireOne d p n)
  | .group condition _ children => by
    rw [Execution.inquireOne]
    split
    · exact inquire x d p children
    · exact pure _
  | .field head children => by
    rw [Execution.inquireOne]
    split
    · exact pure _
    · refine bind (question x d p head fun part q => ?_) fun _ => pure _
      exact (inquire x part q children).map _

theorem inquire (x : Execution σ) (d : Described) (p : Path) : ∀ nodes : List Node,
    Mildly (x.inquire d p nodes)
  | [] => by
    rw [Execution.inquire]
    exact pure _
  | n :: rest => by
    rw [Execution.inquire]
    refine bind (inquireOne x d p n) fun _ => ?_
    exact bind (inquire x d p rest) fun _ => pure _

end

theorem enterDescription (x : Execution σ) (p : Path) (head : FieldHead) (f : FieldDef)
    (children : List Node) : Mildly (x.enterDescription p head f children) := by
  refine bind (fittingArguments x head _) fun arguments => ?_
  split
  · exact pure _
  · exact catching _ ((inquire x _ p children).map _)

end Mildly

end RowGraph
