import RowGraph.Proofs.Execution.Declared
import RowGraph.Proofs.Execution.Inquiry
import RowGraph.Proofs.Propagation.Law
/-!
The account of errors. An invocation that meets an error, its own or one that left an invocation
inside of it, stops it if its position may be null and gives it on unchanged otherwise; and what is
reported in the end is what was raised, error by error. Main statement: this is a law.
-/

namespace RowGraph

variable {σ α : Type}

namespace Visit

-- The error that was raised there, as it is reported.
def reported (v : Visit) : List ResponseError :=
  (v.raised.map (Exec.located v.place.path)).toList

end Visit

namespace Invocation

mutual

def errors : Invocation → List ResponseError
  | .position v inside => v.reported ++ errorsOf inside
  | .description stopped left => stopped ++ left.toList

def errorsOf : List Invocation → List ResponseError
  | [] => []
  | i :: rest => i.errors ++ errorsOf rest

end

theorem errorsOf_append (left right : List Invocation) :
    errorsOf (left ++ right) = errorsOf left ++ errorsOf right := by
  induction left with
  | nil => rfl
  | cons i rest ih =>
    rw [List.cons_append, errorsOf, errorsOf, ih, List.append_assoc]

theorem errorsOf_singleton (i : Invocation) : errorsOf [i] = i.errors := by
  rw [errorsOf, errorsOf, List.append_nil]

def left? : Invocation → Option ResponseError
  | .position v _ => match v.answer with
    | .ok _ => none
    | .error e => some e
  | .description _ left => left

end Invocation

def Quiet (seen : List Invocation) : Prop := ∀ i ∈ seen, i.left? = none

-- The error that an invocation has met. The last one inside is the one that was left by it.
inductive Meets (v : Visit) (inside : List Invocation) : ResponseError → Prop where
  | raised {e : ResponseError} : v.raised = some e → e.path = [] ∨ e.path = v.place.path →
      Quiet inside → Meets v inside (Exec.located v.place.path e)
  | passed {before : List Invocation} {last : Invocation} {e : ResponseError} : v.raised = none →
      inside = before ++ [last] → Quiet before → last.left? = some e → Meets v inside e

inductive Propagates : Invocation → Prop where
  | quiet {v : Visit} {inside : List Invocation} {d : Option Datum} : v.raised = none →
      Quiet inside → v.answer = .ok d → (∀ i ∈ inside, Propagates i) →
      Propagates (.position v inside)
  | stops {v : Visit} {inside : List Invocation} {e : ResponseError} : Meets v inside e →
      v.place.nullable = true → v.answer = .ok none → (∀ i ∈ inside, Propagates i) →
      Propagates (.position v inside)
  | passes {v : Visit} {inside : List Invocation} {e : ResponseError} : Meets v inside e →
      v.place.nullable = false → v.answer = .error e → (∀ i ∈ inside, Propagates i) →
      Propagates (.position v inside)
  | description {stopped : List ResponseError} {left : Option ResponseError} :
      Propagates (.description stopped left)

-- How invocations in a row have ended.
inductive Ends (p : Path) (seen : List Invocation) : Except Fault α → Prop where
  | ok {a : α} : Quiet seen → Ends p seen (.ok a)
  | raised {e : ResponseError} : Quiet seen → e.path = [] ∨ e.path = p →
      Ends p seen (.error (.raised e))
  | passed (before : List Invocation) {last : Invocation} {e : ResponseError} :
      seen = before ++ [last] → Quiet before → last.left? = some (Exec.located p e) →
      Ends p seen (.error (.passed e))

-- The error on its way that was reported already.
def onItsWay (p : Path) : Except Fault α → List ResponseError
  | .error (.passed e) => [Exec.located p e]
  | _ => []

-- Errors that wait at their elements have no position yet.
def Unplaced (marks : List (Path × Option ResponseError)) : Prop :=
  ∀ q e, markAt marks q = some (some e) → e.path = []

structure Accounts (p : Path) (r : Run σ) (w : Watch σ α) : Prop where
  propagate : ∀ i ∈ w.seen, Propagates i
  ends : Ends p w.seen w.result
  errors : (onItsWay p w.result ++ w.run.caught ++ w.run.absorbed).Perm
    (r.caught ++ r.absorbed ++ Invocation.errorsOf w.seen)
  unplaced : Unplaced w.run.marks

theorem Exec.located_path (p : Path) (e : ResponseError) :
    (Exec.located p e).path = if e.path = [] then p else e.path := by
  unfold Exec.located
  by_cases unplaced : e.path = []
  · simp [unplaced]
  · simp [unplaced]

theorem Exec.located_of_path {e : ResponseError} (placed : e.path ≠ []) (p : Path) :
    Exec.located p e = e := by
  unfold Exec.located
  rw [if_neg (by simpa using placed)]

theorem Exec.located_located (p q : Path) (s : Segment) (e : ResponseError) :
    Exec.located p (Exec.located (q ++ [s]) e) = Exec.located (q ++ [s]) e := by
  refine Exec.located_of_path ?_ p
  rw [Exec.located_path]
  split
  · simp
  · assumption

-- An error that an invocation has met was raised in it or inside of it.
theorem Meets.reported {v : Visit} {inside : List Invocation} {e : ResponseError}
    (meets : Meets v inside e)
    (passed : ∀ i ∈ inside, i.left? = some e → e ∈ i.errors) :
    e ∈ Invocation.errors (.position v inside) := by
  rw [Invocation.errors]
  cases meets with
  | raised raised _ _ =>
    refine List.mem_append_left _ ?_
    rw [Visit.reported, raised]
    exact List.mem_singleton_self _
  | @passed before last _ _ split _ left =>
    subst split
    refine List.mem_append_right _ ?_
    rw [Invocation.errorsOf_append, Invocation.errorsOf_singleton]
    exact List.mem_append_right _ (passed last List.mem_concat_self left)

namespace Accounts

theorem quiet_nil : Quiet [] := fun _ absurd => nomatch absurd

theorem quiet_singleton {i : Invocation} (none : i.left? = none) : Quiet [i] := by
  intro j member
  rw [List.mem_singleton.mp member]
  exact none

theorem single {p : Path} {r : Run σ} {w : Watch σ α} {i : Invocation} (seen : w.seen = [i])
    (propagates : Propagates i) (ends : Ends p [i] w.result)
    (errors : (onItsWay p w.result ++ w.run.caught ++ w.run.absorbed).Perm
      (r.caught ++ r.absorbed ++ i.errors)) (unplaced : Unplaced w.run.marks) :
    Accounts p r w := by
  refine ⟨?_, ?_, ?_, unplaced⟩
  · intro j member
    rw [seen] at member
    rw [List.mem_singleton.mp member]
    exact propagates
  · rwa [seen]
  · rwa [seen, Invocation.errorsOf_singleton]

theorem give (p : Path) (r : Run σ) (a : α) (unplaced : Unplaced r.marks) :
    Accounts p r ⟨.ok a, r, []⟩ :=
  ⟨by simp, .ok quiet_nil, by simp [onItsWay, Invocation.errorsOf], unplaced⟩

theorem raise (p : Path) (r : Run σ) {e : ResponseError} (placed : e.path = [] ∨ e.path = p)
    (unplaced : Unplaced r.marks) :
    Accounts p r (⟨.error (.raised e), r, []⟩ : Watch σ α) :=
  ⟨by simp, .raised quiet_nil placed, by simp [onItsWay, Invocation.errorsOf], unplaced⟩

theorem since {p : Path} {r r' : Run σ} {w : Watch σ α} (caught : r'.caught = r.caught)
    (absorbed : r'.absorbed = r.absorbed) (accounts : Accounts p r' w) : Accounts p r w :=
  { accounts with errors := by rw [← caught, ← absorbed]; exact accounts.errors }

-- A computation goes on only after invocations that nothing has left.
theorem next {p : Path} {r : Run σ} {w : Watch σ α} {a : α} {w' : Watch σ β}
    (first : Accounts p r w) (result : w.result = .ok a) (rest : Accounts p w.run w') :
    Accounts p r ⟨w'.result, w'.run, w.seen ++ w'.seen⟩ := by
  have quiet : Quiet w.seen := by
    have ends := first.ends
    rw [result] at ends
    cases ends with
    | ok quiet => exact quiet
  have both {seen : List Invocation} (later : Quiet seen) : Quiet (w.seen ++ seen) := by
    intro i member
    exact (List.mem_append.mp member).elim (quiet i) (later i)
  refine ⟨?_, ?_, ?_, rest.unplaced⟩
  · intro i member
    exact (List.mem_append.mp member).elim (first.propagate i) (rest.propagate i)
  · cases ended : w'.result with
    | ok c =>
      have ends := rest.ends
      rw [ended] at ends
      cases ends with
      | ok later => exact .ok (both later)
    | error fault =>
      have ends := rest.ends
      rw [ended] at ends
      cases ends with
      | raised later placed => exact .raised (both later) placed
      | @passed before last e split later left =>
        exact .passed (w.seen ++ before) (by rw [split, List.append_assoc]) (both later) left
  · have errors := first.errors
    rw [result] at errors
    simp only [onItsWay, List.nil_append] at errors
    refine rest.errors.trans ?_
    rw [Invocation.errorsOf_append, ← List.append_assoc]
    exact errors.append_right _

theorem stop {p : Path} {r : Run σ} {w : Watch σ α} {fault : Fault}
    (first : Accounts p r w) (result : w.result = .error fault) :
    Accounts p r (⟨.error fault, w.run, w.seen⟩ : Watch σ β) := by
  obtain ⟨propagate, ends, errors, unplaced⟩ := first
  rw [result] at ends errors
  refine ⟨propagate, ?_, ?_, unplaced⟩
  · cases ends with
    | raised quiet placed => exact .raised quiet placed
    | passed before split quiet left => exact .passed before split quiet left
  · cases fault with
    | raised e => exact errors
    | passed e => exact errors

-- At its end an invocation has met the error on its way, which is reported or is its own.
theorem meets {r : Run σ} {v : Visit} {w : Watch σ (Option Datum)} {fault : Fault}
    (inner : Accounts v.place.path r w) (result : w.result = .error fault)
    (own : v.raised = fault.raised?) :
    Meets v w.seen (Exec.located v.place.path fault.error) ∧
      (Exec.located v.place.path fault.error :: (w.run.caught ++ w.run.absorbed)).Perm
        (r.caught ++ r.absorbed ++ (v.reported ++ Invocation.errorsOf w.seen)) := by
  obtain ⟨_, ends, errors, _⟩ := inner
  rw [result] at ends errors
  cases ends with
  | @raised e quiet placed =>
    refine ⟨.raised own placed quiet, ?_⟩
    simp only [onItsWay, List.nil_append] at errors
    rw [Visit.reported, own]
    exact (errors.cons _).trans List.perm_middle.symm
  | @passed before last e split quiet left =>
    refine ⟨.passed own split quiet left, ?_⟩
    rw [Visit.reported, own]
    exact errors

theorem close {p : Path} {s : Segment} {r : Run σ} {v : Visit} {w : Watch σ (Option Datum)}
    (fresh : v.raised = none) (place : v.place.path = p ++ [s])
    (inner : Accounts v.place.path r w) : Accounts p r (Watched.close v w) := by
  unfold Watched.close
  cases result : w.result with
  | ok d =>
    obtain ⟨propagate, ends, errors, unplaced⟩ := inner
    rw [result] at ends errors
    cases ends with
    | ok quiet =>
      refine single rfl (.quiet fresh quiet rfl propagate) (.ok (quiet_singleton rfl)) ?_ unplaced
      rw [Invocation.errors, Visit.reported, fresh]
      exact errors
  | error fault =>
    simp only
    cases nullable : v.place.nullable with
    | true =>
      let v' : Visit := { v with raised := fault.raised?, answer := .ok none }
      obtain ⟨meets, errors⟩ := meets (v := v') inner result rfl
      rw [if_pos rfl]
      refine single rfl (.stops meets nullable rfl inner.propagate) (.ok (quiet_singleton rfl)) ?_
        inner.unplaced
      refine List.Perm.trans ?_ errors
      simp only [onItsWay, List.nil_append]
      rw [← List.append_assoc]
      exact List.perm_append_singleton _ _
    | false =>
      let e := Exec.located v.place.path fault.error
      let v' : Visit := { v with raised := fault.raised?, answer := .error e }
      obtain ⟨meets, errors⟩ := meets (v := v') inner result rfl
      have placed : Exec.located p e = e := by
        change Exec.located p (Exec.located v.place.path fault.error) =
          Exec.located v.place.path fault.error
        rw [place]
        exact Exec.located_located p p s fault.error
      rw [if_neg Bool.false_ne_true]
      refine single rfl (.passes meets nullable rfl inner.propagate)
        (.passed [] rfl quiet_nil (congrArg some placed.symm)) ?_ inner.unplaced
      change (Exec.located p e :: (_ ++ _)).Perm _
      rw [placed]
      exact errors

end Accounts

namespace Unplaced

theorem takeMark {r : Run σ} (unplaced : Unplaced r.marks) (p : Path) :
    Unplaced (Exec.takeMark p r).2.marks := by
  intro q e marked
  rw [(Exec.takeMark_eq p r).2.2.2.2] at marked
  split at marked
  · cases marked
  · exact unplaced q e marked

theorem aside {p : Path} {r r' : Run σ} (aside : Aside p r r') (unplaced : Unplaced r.marks) :
    Unplaced r'.marks := by
  intro q e marked
  rcases aside.marks q with same | ⟨_, gone⟩
  · exact unplaced q e (same ▸ marked)
  · rw [gone] at marked
    cases marked

theorem resolved {b : Backend σ} {here : Path} {resolver : Resolver} {ops : List Operation}
    {r r' : Run σ} {result : Except GraphError (Option Outcome)}
    (resolved : Resolved b here resolver ops r result r') (unplaced : Unplaced r.marks) :
    Unplaced r'.marks := by
  intro q e marked
  rcases resolved.marks q with same | ⟨_, _, _, there, allowed⟩
  · exact unplaced q e (same ▸ marked)
  · exact (allowed e (Option.some.inj (there.symm.trans marked))).1

end Unplaced

-- A declared field reports nothing on its own.
structure Silent (r : Run σ) (result : Except ResponseError α) (r' : Run σ) : Prop where
  caught : r'.caught = r.caught
  absorbed : r'.absorbed = r.absorbed
  unplaced : Unplaced r.marks → Unplaced r'.marks
  error : ∀ e, result = .error e → e.path = []

theorem Declared.silent {x : Execution σ} {type field : String} {here : Path} {loc : Location}
    {arguments : Arguments} {parent : Outcome} {r : Run σ}
    {ran : Except ResponseError (Option Outcome) × Run σ}
    (declared : Declared x type field here loc arguments parent r ran) :
    Silent r ran.1 ran.2 := by
  cases declared with
  | refused _ steady bare =>
    refine ⟨steady.caught, steady.absorbed, by rw [steady.marks]; exact fun same => same, ?_⟩
    intro e' same
    exact Except.error.inj same ▸ bare.path
  | unserved _ steady =>
    exact ⟨steady.caught, steady.absorbed, by rw [steady.marks]; exact fun same => same,
      fun _ same => nomatch same⟩
  | @resolved r' r'' resolver result _ _ steady _ resolved =>
    refine ⟨resolved.caught.trans steady.caught, resolved.absorbed.trans steady.absorbed, ?_, ?_⟩
    · intro unplaced
      exact Unplaced.resolved resolved (steady.marks ▸ unplaced)
    · intro e same
      cases result with
      | ok o => cases same
      | error e' =>
        obtain rfl := Except.error.inj same
        rfl

namespace Accounts

theorem steps : Steps fun (α : Type) p (r : Run σ) (w : Watch σ α) =>
    Unplaced r.marks → Accounts p r w where
  give α p r a unplaced := .give p r a unplaced
  raise α p r e placed _ unplaced := .raise p r placed unplaced
  next α β p r w a w' first result rest unplaced :=
    have accounts := first unplaced
    accounts.next result (rest accounts.unplaced)
  stop α β p r w fault first result unplaced := (first unplaced).stop result
  atElement p i nullable body r inside unplaced := by
    let here := p ++ [.index i]
    obtain ⟨_, _, absorbed, caught, _⟩ := Exec.takeMark_eq here r
    have kept : Unplaced (Exec.takeMark here r).2.marks := unplaced.takeMark here
    unfold Watched.element
    split
    · rename_i e r' taken
      rw [taken] at kept caught absorbed
      have marked : e.path = [] := by
        refine unplaced here e ?_
        rw [← (Exec.takeMark_eq here r).1, taken]
      exact .since caught absorbed
        (.close rfl rfl (.raise here r' (.inl marked) kept))
    · rename_i r' taken
      rw [taken] at kept caught absorbed
      refine .since caught absorbed (.close rfl rfl ?_)
      cases nullable with
      | true => exact .give here r' none kept
      | false => exact .raise here r' (.inl rfl) kept
    · rename_i r' taken
      have inside := inside kept
      rw [taken] at inside caught absorbed
      exact .since caught absorbed (.close rfl rfl inside)

theorem invocation {x : Execution σ} {type : TypeDef} {parent : Outcome} {p : Path} {key : String}
    {loc : Location} {object : Watched.ObjectData σ} {f : FieldDef} {arguments : Arguments}
    {r : Run σ} (objects : Objects (fun (α : Type) p (r : Run σ) (w : Watch σ α) =>
      Unplaced r.marks → Accounts p r w) (fun _ _ _ => True) object) (unplaced : Unplaced r.marks) :
    Accounts p r (x.watchInvocation type parent (p ++ [.field key]) loc object f arguments r) := by
  have silent := (x.declaredField_declared type.name f.name (p ++ [.field key]) loc arguments
    parent r).silent
  unfold Execution.watchInvocation
  split
  · rename_i o r' ran
    rw [ran] at silent
    have inside := steps.ofOutcome (c := x.schema.catalog) (fun _ _ _ _ _ _ _ _ => trivial) objects loc f.type
      (p ++ [.field key]) o r' fun found _ => fits_of_known (fun _ _ _ _ => trivial) _ found
    exact .since silent.caught silent.absorbed
      (.close rfl rfl (inside (silent.unplaced unplaced)))
  · rename_i e r' ran
    rw [ran] at silent
    exact .since silent.caught silent.absorbed
      (.close rfl rfl (.raise _ r' (.inl (silent.error e rfl)) (silent.unplaced unplaced)))

theorem stopped {p : Path} {r r' : Run σ} (aside : Aside p r r') :
    (r'.caught ++ r'.absorbed).Perm
      (r.caught ++ r.absorbed ++ Execution.stoppedBetween r r') := by
  obtain ⟨caught, grown⟩ := aside.caught
  obtain ⟨absorbed, grown'⟩ := aside.absorbed
  unfold Execution.stoppedBetween
  rw [← grown, ← grown', List.drop_left, List.drop_left, List.append_assoc, List.append_assoc]
  refine List.Perm.append_left _ ?_
  rw [← List.append_assoc, ← List.append_assoc]
  exact List.perm_append_comm.append_right _

theorem description (x : Execution σ) (p : Path) (head : FieldHead) (f : FieldDef)
    (children : List Node) {r : Run σ} (unplaced : Unplaced r.marks) :
    Accounts p r (x.watchDescription p head f children r) := by
  have aside := Asides.enterDescription x p head f children r
  unfold Execution.watchDescription
  split
  · rename_i d r' ran
    rw [ran] at aside
    refine single rfl .description (.ok (quiet_singleton rfl)) ?_ (unplaced.aside aside)
    rw [Invocation.errors, Option.toList_none, List.append_nil]
    exact stopped aside
  · rename_i e r' ran
    rw [ran] at aside
    refine single rfl .description (.passed [] rfl quiet_nil rfl) ?_ (unplaced.aside aside)
    rw [Invocation.errors, Option.toList_some, ← List.append_assoc]
    exact ((stopped aside).cons _).trans (List.perm_append_singleton _ _).symm

end Accounts

theorem accounts_law (x : Execution σ) :
    Law x (fun (α : Type) p (r : Run σ) (w : Watch σ α) => Unplaced r.marks → Accounts p r w)
      (fun _ _ _ => True) where
  toSteps := Accounts.steps
  lasting _ _ _ _ _ _ _ _ := trivial
  invocation _ _ _ _ _ _ _ _ _ _ _ objects _ unplaced := Accounts.invocation objects unplaced
  description _ _ p head f children _ _ _ unplaced :=
    Accounts.description x p head f children unplaced

end RowGraph
