import RowGraph.Execution.Inquiry
import RowGraph.Proofs.Execution.Marks
/-!
What a look at the description of the schema does to a request: errors that were stopped stay, the
store is not touched, and marks can only be taken away, and only below the position of the look.
-/

namespace RowGraph

variable {σ : Type}

structure Aside (p : Path) (r r' : Run σ) : Prop where
  store : r'.store = r.store
  caught : r.caught <+: r'.caught
  absorbed : r.absorbed <+: r'.absorbed
  distinct : Distinct r.marks → Distinct r'.marks
  marks : ∀ q, markAt r'.marks q = markAt r.marks q ∨ (Below p q ∧ markAt r'.marks q = none)

namespace Aside

theorem refl (p : Path) (r : Run σ) : Aside p r r :=
  ⟨rfl, List.prefix_rfl, List.prefix_rfl, fun distinct => distinct, fun _ => .inl rfl⟩

theorem trans {p : Path} {r r' r'' : Run σ} (first : Aside p r r') (second : Aside p r' r'') :
    Aside p r r'' := by
  refine ⟨second.store.trans first.store, first.caught.trans second.caught,
    first.absorbed.trans second.absorbed, second.distinct ∘ first.distinct, fun q => ?_⟩
  rcases second.marks q with same | gone
  · rw [same]
    exact first.marks q
  · exact .inr gone

theorem outer {p q : Path} {r r' : Run σ} (below : Below p q) (inner : Aside q r r') :
    Aside p r r' := by
  refine ⟨inner.store, inner.caught, inner.absorbed, inner.distinct, fun u => ?_⟩
  exact (inner.marks u).imp_right fun gone => ⟨below.trans gone.1, gone.2⟩

theorem stop (p : Path) (r : Run σ) (e : ResponseError) :
    Aside p r { r with caught := r.caught ++ [e] } :=
  { refl p r with caught := List.prefix_append _ _ }

theorem absorb (p : Path) (r : Run σ) (e : ResponseError) :
    Aside p r { r with absorbed := r.absorbed ++ [e] } :=
  { refl p r with absorbed := List.prefix_append _ _ }

theorem takeMark (p : Path) (s : Segment) (r : Run σ) :
    Aside p r (Exec.takeMark (p ++ [s]) r).2 := by
  obtain ⟨_, store, absorbed, caught, marks⟩ := Exec.takeMark_eq (p ++ [s]) r
  refine ⟨store, by simp [caught], by simp [absorbed], fun d => Exec.distinct_takeMark d _, fun q => ?_⟩
  rw [marks]
  by_cases same : q = p ++ [s]
  · rw [if_pos same, same]
    exact .inr ⟨Below.snoc p s, rfl⟩
  · rw [if_neg same]
    exact .inl rfl

end Aside

-- From whatever state it starts.
def Asides (p : Path) (x : Exec σ α) : Prop := ∀ r, Aside p r (x r).2

namespace Asides

variable {p : Path}

theorem pure (a : α) : Asides p (Pure.pure a : Exec σ α) := Aside.refl p

theorem throw (e : ResponseError) : Asides p (MonadExcept.throw e : Exec σ α) := Aside.refl p

theorem lift (x : Except ResponseError α) : Asides p (liftM x : Exec σ α) := by
  intro r
  cases x <;> exact Aside.refl p r

theorem bind {x : Exec σ α} {f : α → Exec σ β} (first : Asides p x) (rest : ∀ a, Asides p (f a)) :
    Asides p (x >>= f) := by
  intro r
  rw [bind_apply]
  have start := first r
  rcases ran : x r with ⟨e | a, r'⟩
  · rw [ran] at start
    exact start
  · rw [ran] at start
    exact start.trans (rest a r')

theorem map {x : Exec σ α} (f : α → β) (inside : Asides p x) : Asides p (f <$> x) := by
  have unfolded : f <$> x = x >>= fun a => Pure.pure (f a) := map_eq_pure_bind f x
  rw [unfolded]
  exact inside.bind fun a => .pure (f a)

theorem outer {q : Path} (below : Below p q) {x : Exec σ α} (inner : Asides q x) : Asides p x :=
  fun r => (inner r).outer below

theorem absorb (q : Path) (nullable : Bool) (e : ResponseError) :
    Asides p (Exec.absorb q nullable e : Exec σ (Option Datum)) := by
  intro r
  cases nullable with
  | true => exact Aside.absorb p r _
  | false => exact Aside.refl p r

theorem guard (q : Path) (nullable : Bool) {x : Exec σ (Option Datum)} (inside : Asides p x) :
    Asides p (Exec.guard q nullable x) := by
  intro r
  have start := inside r
  unfold Exec.guard
  rcases ran : x r with ⟨e | d, r'⟩
  · rw [ran] at start
    exact start.trans (absorb q nullable e r')
  · rw [ran] at start
    exact start

theorem catching (nullable : Bool) {x : Exec σ (Option Datum)} (inside : Asides p x) :
    Asides p (Exec.catching nullable x) := by
  intro r
  have start := inside r
  unfold Exec.catching
  rcases ran : x r with ⟨e | d, r'⟩
  · rw [ran] at start
    cases nullable with
    | true => exact start.trans (Aside.stop p r' e)
    | false => exact start
  · rw [ran] at start
    exact start

theorem relocated (q : Path) {x : Exec σ α} (inside : Asides p x) :
    Asides p (Exec.relocated q x) := by
  intro r
  rw [Exec.relocated, adapt_apply]
  exact inside r

theorem element (s : Segment) (nullable : Bool) {x : Exec σ (Option Datum)}
    (inside : Asides (p ++ [s]) x) : Asides p (Exec.element (p ++ [s]) nullable x) := by
  intro r
  unfold Exec.element
  rw [bind_apply, lift_apply]
  have taken := Aside.takeMark p s r
  rcases found : Exec.takeMark (p ++ [s]) r with ⟨_ | _ | e, r'⟩ <;> rw [found] at taken
  · exact taken.trans (guard _ nullable (inside.outer (Below.snoc p s)) r')
  · cases nullable with
    | true => exact taken
    | false => exact taken.trans (absorb _ false _ r')
  · exact taken.trans (absorb _ nullable e r')

theorem elements (nullable : Bool) {body : Path → α → Exec σ (Option Datum)}
    (inside : ∀ i a, Asides (p ++ [.index i]) (body (p ++ [.index i]) a)) (as : List α)
    (index : Nat) : Asides p (Complete.elements nullable p body index as) := by
  induction as generalizing index with
  | nil => exact pure _
  | cons a rest ih =>
    refine bind (element _ nullable (inside index a)) fun d => ?_
    exact bind (ih (index + 1)) fun ds => pure _

theorem fittingArguments (x : Execution σ) (head : FieldHead) (known : List InputDef) :
    Asides p (x.fittingArguments head known) := by
  induction known with
  | nil => exact pure _
  | cons d rest ih =>
    rw [Execution.fittingArguments]
    cases head.arguments.find? fun a => a.name = d.name with
    | none => exact ih
    | some a =>
      refine bind (lift _) fun value => ?_
      split
      · exact throw _
      · exact bind ih fun more => pure _

theorem answered {part : Described → Path → Exec σ Datum}
    (inside : ∀ d q, Asides q (part d q)) (answer : Option Described.Answer) :
    Asides p (Execution.answered part p answer) := by
  cases answer with
  | none => exact pure _
  | some answer =>
    cases answer with
    | leaf d => exact pure _
    | part d => exact map _ (inside d p)
    | leaves ds => exact map _ (elements _ (fun _ _ => pure _) ds 0)
    | parts ds =>
      refine map _ (elements _ (fun i d => ?_) ds 0)
      exact relocated _ (map _ (inside d _))

theorem question (x : Execution σ) (d : Described) (head : FieldHead)
    {part : Described → Path → Exec σ Datum} (inside : ∀ d q, Asides q (part d q)) :
    Asides p (x.question d p head part) := by
  unfold Execution.question
  simp only
  split
  · exact throw _
  · refine guard _ _ ?_
    split
    · exact pure _
    · refine bind (fittingArguments x head _) fun _ => ?_
      exact catching _ (outer (Below.snoc p _) (answered inside _))

mutual

theorem inquireOne (x : Execution σ) (d : Described) (p : Path) : ∀ n : Node,
    Asides p (x.inquireOne d p n)
  | .group condition _ children => by
    rw [Execution.inquireOne]
    split
    · exact inquire x d p children
    · exact pure _
  | .field head children => by
    rw [Execution.inquireOne]
    split
    · exact pure _
    · refine bind (question x d head fun part q => ?_) fun _ => pure _
      exact map _ (inquire x part q children)

theorem inquire (x : Execution σ) (d : Described) (p : Path) : ∀ nodes : List Node,
    Asides p (x.inquire d p nodes)
  | [] => by
    rw [Execution.inquire]
    exact pure _
  | n :: rest => by
    rw [Execution.inquire]
    refine bind (inquireOne x d p n) fun _ => ?_
    exact bind (inquire x d p rest) fun _ => pure _

end

theorem enterDescription (x : Execution σ) (p : Path) (head : FieldHead) (f : FieldDef)
    (children : List Node) : Asides p (x.enterDescription p head f children) := by
  refine bind (fittingArguments x head _) fun arguments => ?_
  split
  · exact pure _
  · exact catching _ (map _ (inquire x _ p children))

end Asides

end RowGraph
