import RowGraph.Proofs.Execution.Agreement
/-!
The calls of hooks that have been noted. Nobody looks at them, and nothing but a hook notes any. Main
statement: what resolvers and the description of the schema do is done without a call and whatever
calls there have been.
-/

namespace RowGraph

variable {σ ε α β : Type}

-- The second computation does what the first does, but for the calls that it notes. What is quiet
-- notes none.
def ButCalls (quiet : Prop) (x y : ExceptT ε (StateM (Run σ)) α) : Prop :=
  ∀ r calls, ∃ calls', (quiet → calls' = calls) ∧
    y { r with calls } = ((x r).1, { (x r).2 with calls := calls' })

theorem ButCalls.kept {x : ExceptT ε (StateM (Run σ)) α} (quiet : ButCalls True x x) (r : Run σ) :
    (x r).2.calls = r.calls := by
  obtain ⟨calls, kept, ran⟩ := quiet r r.calls
  have same := congrArg (fun w => w.2.calls) ran
  exact same.trans (kept trivial)

namespace ButCalls

variable {quiet : Prop}

theorem pure (a : α) :
    ButCalls quiet (Pure.pure a : ExceptT ε (StateM (Run σ)) α) (Pure.pure a) :=
  fun _ calls => ⟨calls, fun _ => rfl, rfl⟩

theorem throw (e : ε) :
    ButCalls quiet (MonadExcept.throw e : ExceptT ε (StateM (Run σ)) α) (MonadExcept.throw e) :=
  fun _ calls => ⟨calls, fun _ => rfl, rfl⟩

theorem lift (y : Except ε α) :
    ButCalls quiet (liftM y : ExceptT ε (StateM (Run σ)) α) (liftM y) := by
  cases y with
  | ok a => exact pure a
  | error e => exact throw e

theorem bind {x y : ExceptT ε (StateM (Run σ)) α} {f g : α → ExceptT ε (StateM (Run σ)) β}
    (first : ButCalls quiet x y) (rest : ∀ a, ButCalls quiet (f a) (g a)) :
    ButCalls quiet (x >>= f) (y >>= g) := by
  intro r calls
  obtain ⟨calls', kept, ran⟩ := first r calls
  rw [bind_apply, bind_apply, ran]
  rcases x r with ⟨_ | a, s⟩
  · exact ⟨calls', kept, rfl⟩
  · obtain ⟨calls'', kept', ran'⟩ := rest a s calls'
    exact ⟨calls'', fun silent => (kept' silent).trans (kept silent), ran'⟩

theorem map {x y : ExceptT ε (StateM (Run σ)) α} (f : α → β) (inside : ButCalls quiet x y) :
    ButCalls quiet (f <$> x) (f <$> y) := by
  rw [map_eq_pure_bind, map_eq_pure_bind]
  exact inside.bind fun a => pure (f a)

theorem adapt {ε' : Type} (f : ε → ε') {x y : ExceptT ε (StateM (Run σ)) α}
    (inside : ButCalls quiet x y) : ButCalls quiet (ExceptT.adapt f x) (ExceptT.adapt f y) := by
  intro r calls
  obtain ⟨calls', kept, ran⟩ := inside r calls
  rw [adapt_apply, adapt_apply, ran]
  exact ⟨calls', kept, rfl⟩

-- An error is answered by what is made of it.
theorem rescue {x y g h : Exec σ (Option Datum)} {f : ResponseError → Exec σ (Option Datum)}
    (inside : ButCalls quiet x y) (handles : ∀ e, ButCalls quiet (f e) (f e))
    (shown : ∀ r, g r = match x r with | (.ok d, s) => (.ok d, s) | (.error e, s) => f e s)
    (shown' : ∀ r, h r = match y r with | (.ok d, s) => (.ok d, s) | (.error e, s) => f e s) :
    ButCalls quiet g h := by
  intro r calls
  obtain ⟨calls', kept, ran⟩ := inside r calls
  rw [shown, shown', ran]
  rcases x r with ⟨e | d, s⟩
  · obtain ⟨calls'', kept', ran'⟩ := handles e s calls'
    exact ⟨calls'', fun silent => (kept' silent).trans (kept silent), ran'⟩
  · exact ⟨calls', kept, rfl⟩

theorem absorb (path : Path) (nullable : Bool) (e : ResponseError) :
    ButCalls quiet (Exec.absorb path nullable e : Exec σ _) (Exec.absorb path nullable e) := by
  cases nullable with
  | true => exact fun _ calls => ⟨calls, fun _ => rfl, rfl⟩
  | false => exact throw _

variable {x y : Exec σ (Option Datum)}

theorem guard (path : Path) (nullable : Bool) (inside : ButCalls quiet x y) :
    ButCalls quiet (Exec.guard path nullable x) (Exec.guard path nullable y) :=
  inside.rescue (absorb path nullable) (fun _ => rfl) fun _ => rfl

theorem catching (nullable : Bool) (inside : ButCalls quiet x y) :
    ButCalls quiet (Exec.catching nullable x) (Exec.catching nullable y) := by
  cases nullable with
  | false => exact inside.rescue throw (fun _ => rfl) fun _ => rfl
  | true =>
    refine inside.rescue (f := fun e r => (.ok none, { r with caught := r.caught ++ [e] }))
      (fun e _ calls => ⟨calls, fun _ => rfl, rfl⟩) (fun _ => rfl) fun _ => rfl

theorem relocated {x y : Exec σ α} (path : Path) (inside : ButCalls quiet x y) :
    ButCalls quiet (Exec.relocated path x) (Exec.relocated path y) := inside.adapt _

theorem takeMark (path : Path) : ButCalls quiet
    (liftM (Exec.takeMark path : StateM (Run σ) _) : Exec σ _)
    (liftM (Exec.takeMark path : StateM (Run σ) _)) := by
  intro r calls
  refine ⟨calls, fun _ => rfl, ?_⟩
  rw [lift_apply, lift_apply]
  unfold Exec.takeMark
  cases r.marks.find? fun m => m.1 = path <;> rfl

theorem element (path : Path) (nullable : Bool) (inside : ButCalls quiet x y) :
    ButCalls quiet (Exec.element path nullable x) (Exec.element path nullable y) := by
  refine (takeMark path).bind fun mark => ?_
  match mark with
  | some (some e) => exact absorb path nullable e
  | some none =>
    cases nullable with
    | true => exact pure none
    | false => exact absorb path false _
  | none => exact inside.guard path nullable

theorem elements (nullable : Bool) (path : Path) {body body' : Path → α → Exec σ (Option Datum)}
    (inside : ∀ here a, ButCalls quiet (body here a) (body' here a)) (as : List α) (index : Nat) :
    ButCalls quiet (Complete.elements nullable path body index as)
      (Complete.elements nullable path body' index as) := by
  induction as generalizing index with
  | nil => exact pure []
  | cons a rest ih =>
    refine ((inside _ a).element _ nullable).bind fun d => ?_
    exact (ih (index + 1)).bind fun ds => pure _

end ButCalls

section

open Resolve ButCalls

variable {quiet : Prop}

theorem Resolve.fetch_unheard (b : Backend σ) (key : Key) :
    ButCalls quiet (fetch b key) (fetch b key) := by
  intro r calls
  refine ⟨calls, fun _ => rfl, ?_⟩
  unfold fetch
  rcases b.get key r.store with ⟨_ | _, s⟩ <;> rfl

theorem Resolve.nullElement_unheard (path : Path) (loc : Location) (index : Nat)
    (e : Option GraphError) : ButCalls (σ := σ) quiet (nullElement path loc index e)
      (nullElement path loc index e) := fun _ calls => ⟨calls, fun _ => rfl, rfl⟩

theorem Resolve.rootRow_unheard (b : Backend σ) (argument table : String) (entry : Bool)
    (d : Datum) : ButCalls quiet (rootRow b argument table entry d)
      (rootRow b argument table entry d) :=
  (lift _).bind fun _ => (fetch_unheard b _).bind fun _ => pure _

theorem Resolve.rootRows_unheard (b : Backend σ) (argument table : String) (entry : Bool)
    (ids : List Datum) : ButCalls quiet (rootRows b argument table entry ids)
      (rootRows b argument table entry ids) := by
  induction ids with
  | nil => exact pure []
  | cons d rest ih =>
    have later (row : Option Outcome) := ih.bind fun rows => pure (row :: rows)
    unfold rootRows
    dsimp only
    split
    · exact (pure none).bind later
    · exact (rootRow_unheard b argument table entry d).bind later

theorem Resolve.rootElements_unheard (path : Path) (loc : Location) (rows : List (Option Outcome))
    (index : Nat) : ButCalls (σ := σ) quiet (rootElements path loc index rows)
      (rootElements path loc index rows) := by
  induction rows generalizing index with
  | nil => exact pure []
  | cons row rest ih =>
    have later (o : Outcome) := (ih (index + 1)).bind fun os => pure (o :: os)
    cases row with
    | some o => exact later o
    | none => exact (nullElement_unheard path loc index none).bind fun _ => later _

theorem Resolve.root_unheard (b : Backend σ) (argument : String) (shape : FieldShape) (path : Path)
    (loc : Location) (arguments : Arguments) :
    ButCalls quiet (root b argument shape path loc arguments)
      (root b argument shape path loc arguments) := by
  unfold root
  split
  · exact throw _
  · exact pure none
  · exact rootRow_unheard b argument _ shape.entry _
  · refine (rootRows_unheard b argument _ shape.entry _).bind fun rows => ?_
    exact (rootElements_unheard path loc rows 0).bind fun items => pure _
  · exact throw _

theorem Resolve.follow_unheard (b : Backend σ) (column table : String) (entry required : Bool)
    (v : Option Value) : ButCalls quiet (follow b column table entry required v)
      (follow b column table entry required v) := by
  unfold follow
  split
  · exact pure _
  · split
    · exact pure _
    · refine (fetch_unheard b _).bind fun e => ?_
      cases e <;> exact pure _

theorem Resolve.followAll_unheard (b : Backend σ) (column table : String) (entry required : Bool)
    (vs : List Value) : ButCalls quiet (followAll b column table entry required vs)
      (followAll b column table entry required vs) := by
  induction vs with
  | nil => exact pure []
  | cons v rest ih =>
    exact (follow_unheard b column table entry required _).bind fun link =>
      ih.bind fun links => pure _

theorem Resolve.linkElements_unheard (path : Path) (loc : Location) (required : Bool)
    (links : List Link) (index : Nat) :
    ButCalls (σ := σ) quiet (linkElements path loc required index links)
      (linkElements path loc required index links) := by
  induction links generalizing index with
  | nil => exact pure []
  | cons link rest ih =>
    have later (o : Outcome) := (ih (index + 1)).bind fun os => pure (o :: os)
    cases link with
    | row o => exact later o
    | empty => exact (nullElement_unheard path loc index none).bind fun _ => later _
    | broken e =>
      unfold linkElements
      split
      · exact throw e
      · exact (nullElement_unheard path loc index (some e)).bind fun _ => later _

theorem Resolve.reference_unheard (b : Backend σ) (column : String) (shape : FieldShape)
    (path : Path) (loc : Location) (parent : Outcome) :
    ButCalls quiet (reference b column shape path loc parent)
      (reference b column shape path loc parent) := by
  refine (lift _).bind fun row => ?_
  split
  · exact throw _
  · refine (follow_unheard b column _ shape.entry shape.nonNull _).bind fun link => ?_
    cases link with
    | row o => exact pure _
    | empty => exact pure none
    | broken e => exact throw e
  · split
    · split
      · exact throw _
      · exact pure none
    · refine (followAll_unheard b column _ shape.entry _ _).bind fun links => ?_
      exact (linkElements_unheard path loc _ links 0).bind fun os => pure _
    · exact throw _

theorem Commit.mutation_unheard (b : Backend σ) (plan : MutationPlan) (arguments : Arguments) :
    ButCalls quiet (mutation b plan arguments) (mutation b plan arguments) := by
  have sent (op : Operation) : ButCalls quiet (send b op) (send b op) := by
    intro r calls
    refine ⟨calls, fun _ => rfl, ?_⟩
    unfold send
    rcases b.commit op r.store with ⟨_ | _, s⟩ <;> rfl
  have committed (op : Operation) : ButCalls quiet
      (if op.isEmpty then Pure.pure none
        else send b op >>= fun stamp => Pure.pure (stamp.map (result plan)))
      (if op.isEmpty then Pure.pure none
        else send b op >>= fun stamp => Pure.pure (stamp.map (result plan))) := by
    split
    · exact pure none
    · exact (sent op).bind fun stamp => pure _
  unfold mutation
  dsimp only
  split
  · exact (pure _).bind fun input => (lift _).bind committed
  · exact (throw _).bind fun input => (lift _).bind committed

theorem Execution.resolver_unheard (x : Execution σ) (path : Path) (loc : Location)
    (arguments : Arguments) (parent : Outcome) (r : Resolver) :
    ButCalls quiet (x.resolver path loc arguments parent r)
      (x.resolver path loc arguments parent r) := by
  cases r with
  | root argument shape => exact root_unheard x.backend argument shape path loc arguments
  | column name => exact lift _
  | reference column shape => exact reference_unheard x.backend column shape path loc parent
  | value => exact lift _
  | mutation plan => exact Commit.mutation_unheard x.backend plan arguments

theorem Execution.fittingArguments_unheard (x : Execution σ) (head : FieldHead)
    (known : List InputDef) : ButCalls quiet (x.fittingArguments head known)
      (x.fittingArguments head known) := by
  induction known with
  | nil => exact pure []
  | cons i rest ih =>
    unfold fittingArguments
    split
    · exact ih
    · refine (lift _).bind fun d => ?_
      split
      · exact throw _
      · exact ih.bind fun more => pure _

theorem Execution.answered_unheard {part : Described → Path → Exec σ Datum}
    (inside : ∀ d here, ButCalls quiet (part d here) (part d here)) (path : Path)
    (answer : Option Described.Answer) :
    ButCalls quiet (answered part path answer) (answered part path answer) := by
  unfold answered
  split
  · exact pure none
  · exact pure _
  · exact (inside _ path).map some
  · exact (elements false path (fun _ d => pure (some d)) _ 0).map _
  · refine ButCalls.map _ (elements false path (fun here d => ?_) _ 0)
    exact ((inside d here).map some).relocated here

theorem Execution.question_unheard (x : Execution σ) (d : Described) (path : Path) (head : FieldHead)
    {part : Described → Path → Exec σ Datum}
    (inside : ∀ d here, ButCalls quiet (part d here) (part d here)) :
    ButCalls quiet (x.question d path head part) (x.question d path head part) := by
  unfold question
  dsimp only
  split
  · exact throw _
  · refine ButCalls.guard _ _ ?_
    split
    · exact pure none
    · refine (x.fittingArguments_unheard head _).bind fun _ => ?_
      exact (answered_unheard inside _ _).catching _

mutual

theorem Execution.inquireOne_unheard (x : Execution σ) (d : Described) (path : Path) : ∀ n : Node,
    ButCalls quiet (x.inquireOne d path n) (x.inquireOne d path n)
  | .group condition _ children => by
    unfold inquireOne
    split
    · exact x.inquire_unheard d path children
    · exact pure []
  | .field head children => by
    unfold inquireOne
    split
    · exact pure _
    · refine (x.question_unheard d path head fun part here => ?_).bind fun found => pure _
      exact (x.inquire_unheard part here children).map _

theorem Execution.inquire_unheard (x : Execution σ) (d : Described) (path : Path) :
    ∀ nodes : List Node, ButCalls quiet (x.inquire d path nodes) (x.inquire d path nodes)
  | [] => by
    unfold inquire
    exact pure []
  | n :: rest => by
    unfold inquire
    refine (x.inquireOne_unheard d path n).bind fun results => ?_
    exact (x.inquire_unheard d path rest).bind fun more => pure _

end

theorem Execution.enterDescription_unheard (x : Execution σ) (path : Path) (head : FieldHead)
    (f : FieldDef) (children : List Node) :
    ButCalls quiet (x.enterDescription path head f children)
      (x.enterDescription path head f children) := by
  unfold enterDescription
  refine (x.fittingArguments_unheard head _).bind fun arguments => ?_
  split
  · exact pure none
  · exact ((x.inquire_unheard _ path children).map _).catching _

end

end RowGraph
