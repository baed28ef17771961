import RowGraph.Proofs.Propagation.Account
import RowGraph.Proofs.Tandem.Forms
/-!
Two computations on two stores, step by step. Calls on the two stores are answered alike, a fault on
one side by a fault on the other, whatever their texts; what the computations hand on, mark and absorb
is alike then. It may come to a point from which on nothing is said any more. Main statements: steps
in a row, guards and elements keep two computations alongside each other.
-/

namespace RowGraph

variable {σ σ' ε ε' α β : Type}

-- Results on both sides or errors on both sides.
inductive Agree (E : ε → ε' → Prop) (V : α → β → Prop) : Except ε α → Except ε' β → Prop where
  | ok {a : α} {b : β} : V a b → Agree E V (.ok a) (.ok b)
  | error {e : ε} {e' : ε'} : E e e' → Agree E V (.error e) (.error e')

theorem Agree.refl {E : ε → ε → Prop} {V : α → α → Prop} (errors : ∀ e, E e e) (values : ∀ a, V a a)
    (x : Except ε α) : Agree E V x x := by
  cases x with
  | ok a => exact .ok (values a)
  | error e => exact .error (errors e)

namespace Agree

variable {α' β' : Type} {E : ε → ε' → Prop} {V : α → α' → Prop} {W : β → β' → Prop}
  {y : Except ε α} {y' : Except ε' α'}

theorem imp {V' : α → α' → Prop} (agree : Agree E V y y') (weaker : ∀ a a', V a a' → V' a a') :
    Agree E V' y y' := by
  cases agree with
  | ok same => exact .ok (weaker _ _ same)
  | error same => exact .error same

theorem bind {f : α → Except ε β} {f' : α' → Except ε' β'} (first : Agree E V y y')
    (rest : ∀ a a', V a a' → Agree E W (f a) (f' a')) : Agree E W (y >>= f) (y' >>= f') := by
  cases first with
  | ok same => exact rest _ _ same
  | error same => exact .error same

theorem map {f : α → β} {f' : α' → β'} (agree : Agree E V y y')
    (same : ∀ a a', V a a' → W (f a) (f' a')) : Agree E W (y.map f) (y'.map f') := by
  cases agree with
  | ok related => exact .ok (same _ _ related)
  | error same => exact .error same

theorem mapLeft {W : β → α' → Prop} {f : α → β} (agree : Agree E V y y')
    (same : ∀ a a', V a a' → W (f a) a') : Agree E W (y.map f) y' := by
  cases agree with
  | ok related => exact .ok (same _ _ related)
  | error same => exact .error same

theorem mapRight {W : α → β' → Prop} {f' : α' → β'} (agree : Agree E V y y')
    (same : ∀ a a', V a a' → W a (f' a')) : Agree E W y (y'.map f') := by
  cases agree with
  | ok related => exact .ok (same _ _ related)
  | error same => exact .error same

-- What is known of a result on one side.
theorem known {P : α → Prop} (agree : Agree E V y y') (holds : ∀ a, y = .ok a → P a) :
    Agree E (fun a a' => V a a' ∧ P a) y y' := by
  cases agree with
  | ok related => exact .ok ⟨related, holds _ rfl⟩
  | error same => exact .error same

end Agree

-- What is told of an error, at the same place of a text if the texts are to be the same.
structure ResponseError.Like (exact : Prop) (e e' : ResponseError) : Prop where
  message : e'.message = e.message
  path : e'.path = e.path
  code : e'.code = e.code
  locations : exact → e'.locations = e.locations

-- Faults of the store are alike whatever their texts.
inductive GraphError.Like : GraphError → GraphError → Prop where
  | same (e : GraphError) : Like e e
  | store (e e' : StoreError) : Like (.store e) (.store e')

theorem ResponseError.Like.refl (exact : Prop) (e : ResponseError) : ResponseError.Like exact e e :=
  ⟨rfl, rfl, rfl, fun _ => rfl⟩

theorem ResponseError.Like.located {exact : Prop} {e e' : ResponseError}
    (like : ResponseError.Like exact e e') (path : Path) :
    ResponseError.Like exact (Exec.located path e) (Exec.located path e') := by
  unfold Exec.located
  rw [like.path]
  split
  · exact ⟨like.message, rfl, like.code, like.locations⟩
  · exact like

theorem GraphError.Like.raisedAt {exact : Prop} {e e' : GraphError} {loc loc' : Location}
    (like : e.Like e') (place : exact → loc' = loc) :
    ResponseError.Like exact (e.raisedAt loc) (e'.raisedAt loc') := by
  have located : exact → [loc'] = [loc] := fun same => by rw [place same]
  cases like with
  | same => exact ⟨rfl, rfl, rfl, located⟩
  | store => exact ⟨rfl, rfl, rfl, located⟩

-- Two stores that answer alike. In a lost state of the first nothing is said of the second.
structure Tandem (s : Schema) (b : Backend σ) (b' : Backend σ') where
  level : σ → σ' → Prop
  lost : σ → Prop
  get : ∀ key t t', level t t' → lost (b.get key t).2 ∨
    Agree (fun _ _ => True) (Option.Rel (Entry.Alike s key.table)) (b.get key t).1 (b'.get key t').1 ∧
      level (b.get key t).2 (b'.get key t').2
  commit : ∀ op t t', level t t' → lost (b.commit op t).2 ∨
    Agree (fun _ _ => True) Eq (b.commit op t).1 (b'.commit op t').1 ∧
      level (b.commit op t).2 (b'.commit op t').2
  lost_get : ∀ key t, lost t → lost (b.get key t).2
  lost_commit : ∀ op t, lost t → lost (b.commit op t).2

namespace Tandem

variable {s : Schema} {b : Backend σ} {b' : Backend σ'}

abbrev Marks := List (Path × Option ResponseError)

-- The same positions are marked, in the same way.
def MarksAlike (exact : Prop) : Marks → Marks → Prop :=
  List.Forall₂ fun m m' => m'.1 = m.1 ∧ Option.Rel (ResponseError.Like exact) m.2 m'.2

structure Near (t : Tandem s b b') (exact : Prop) (r : Run σ) (r' : Run σ') : Prop where
  store : t.level r.store r'.store
  marks : MarksAlike exact r.marks r'.marks
  absorbed : List.Forall₂ (ResponseError.Like exact) r.absorbed r'.absorbed
  caught : List.Forall₂ (ResponseError.Like exact) r.caught r'.caught
  calls : r'.calls = r.calls

structure Along (t : Tandem s b b') (exact : Prop) (E : ε → ε → Prop) (V : α → α → Prop)
    (x : ExceptT ε (StateM (Run σ)) α) (x' : ExceptT ε (StateM (Run σ')) α) : Prop where
  keeps : ∀ r, t.lost r.store → t.lost (x r).2.store
  meets : ∀ r r', t.Near exact r r' → t.lost (x r).2.store ∨
    Agree E V (x r).1 (x' r').1 ∧ t.Near exact (x r).2 (x' r').2

variable {t : Tandem s b b'} {exact : Prop} {E : ε → ε → Prop} {V : α → α → Prop}

namespace Along

-- A computation that looks at nothing.
theorem result {y y' : Except ε α} (agree : Agree E V y y') :
    t.Along exact E V (liftM y) (liftM y') := by
  refine ⟨fun r lost => ?_, fun r r' near => .inr ?_⟩
  · cases y with
    | ok a => exact lost
    | error e => exact lost
  · cases agree with
    | ok v => exact ⟨.ok v, near⟩
    | error e => exact ⟨.error e, near⟩

theorem pure {a a' : α} (same : V a a') :
    t.Along exact E V (Pure.pure a) (Pure.pure a') :=
  ⟨fun _ lost => lost, fun _ _ near => .inr ⟨.ok same, near⟩⟩

theorem throw {e e' : ε} (same : E e e') :
    t.Along exact E V (MonadExcept.throw e) (MonadExcept.throw e') :=
  ⟨fun _ lost => lost, fun _ _ near => .inr ⟨.error same, near⟩⟩

-- What comes next is said for related values. Every value is related to itself, so the next step
-- also loses nothing that is lost.
theorem bind {W : β → β → Prop} {x : ExceptT ε (StateM (Run σ)) α}
    {x' : ExceptT ε (StateM (Run σ')) α} {f : α → ExceptT ε (StateM (Run σ)) β}
    {f' : α → ExceptT ε (StateM (Run σ')) β} (first : t.Along exact E V x x') (refl : ∀ a, V a a)
    (rest : ∀ a a', V a a' → t.Along exact E W (f a) (f' a')) :
    t.Along exact E W (x >>= f) (x' >>= f') := by
  have keeps (r : Run σ) (lost : t.lost (x r).2.store) : t.lost ((x >>= f) r).2.store := by
    rw [bind_apply]
    rcases ran : x r with ⟨e | a, r₁⟩
    · rwa [ran] at lost
    · rw [ran] at lost
      exact (rest a a (refl a)).keeps r₁ lost
  refine ⟨fun r lost => keeps r (first.keeps r lost), fun r r' near => ?_⟩
  rcases first.meets r r' near with lost | ⟨agree, near⟩
  · exact .inl (keeps r lost)
  · rw [bind_apply, bind_apply]
    rcases ran : x r with ⟨y, r₁⟩
    rcases ran' : x' r' with ⟨y', r₁'⟩
    rw [ran, ran'] at agree near
    cases agree with
    | ok same => exact (rest _ _ same).meets r₁ r₁' near
    | error same => exact .inr ⟨.error same, near⟩

theorem map {W : β → β → Prop} {x : ExceptT ε (StateM (Run σ)) α}
    {x' : ExceptT ε (StateM (Run σ')) α} {f f' : α → β} (inside : t.Along exact E V x x')
    (refl : ∀ a, V a a) (same : ∀ a a', V a a' → W (f a) (f' a')) :
    t.Along exact E W (f <$> x) (f' <$> x') := by
  rw [map_eq_pure_bind, map_eq_pure_bind]
  exact inside.bind refl fun a a' related => .pure (same a a' related)

theorem imp {W : α → α → Prop} {x : ExceptT ε (StateM (Run σ)) α}
    {x' : ExceptT ε (StateM (Run σ')) α} (along : t.Along exact E V x x')
    (weaker : ∀ a a', V a a' → W a a') : t.Along exact E W x x' := by
  refine ⟨along.keeps, fun r r' near => (along.meets r r' near).imp_right ?_⟩
  rintro ⟨agree, near⟩
  refine ⟨?_, near⟩
  generalize (x r).1 = y at agree ⊢
  generalize (x' r').1 = y' at agree ⊢
  cases agree with
  | ok same => exact .ok (weaker _ _ same)
  | error same => exact .error same

theorem adapt {F : ε' → ε' → Prop} {f f' : ε → ε'} (forms : ∀ e e', E e e' → F (f e) (f' e'))
    {x : ExceptT ε (StateM (Run σ)) α} {x' : ExceptT ε (StateM (Run σ')) α}
    (inside : t.Along exact E V x x') :
    t.Along exact F V (ExceptT.adapt f x) (ExceptT.adapt f' x') := by
  refine ⟨inside.keeps, fun r r' near => (inside.meets r r' near).imp_right ?_⟩
  rintro ⟨agree, near⟩
  rw [adapt_apply, adapt_apply]
  refine ⟨?_, near⟩
  generalize (x r).1 = y at agree ⊢
  generalize (x' r').1 = y' at agree ⊢
  cases agree with
  | ok same => exact .ok same
  | error same => exact .error (forms _ _ same)

end Along

-- Everything but the store.
theorem Near.moved {r : Run σ} {r' : Run σ'} (near : t.Near exact r r') {u : σ} {u' : σ'}
    (level : t.level u u') : t.Near exact { r with store := u } { r' with store := u' } :=
  ⟨level, near.marks, near.absorbed, near.caught, near.calls⟩

theorem MarksAlike.erase {marks marks' : Marks} (alike : MarksAlike exact marks marks') (path : Path) :
    MarksAlike exact (marks.filter fun m => m.1 ≠ path) (marks'.filter fun m => m.1 ≠ path) := by
  induction alike with
  | nil => exact .nil
  | @cons m m' rest rest' same _ ih =>
    simp only [List.filter_cons, same.1]
    split
    · exact .cons same ih
    · exact ih

theorem MarksAlike.find {marks marks' : Marks} (alike : MarksAlike exact marks marks') (path : Path) :
    Option.Rel (fun m m' => m'.1 = m.1 ∧ Option.Rel (ResponseError.Like exact) m.2 m'.2)
      (marks.find? fun m => m.1 = path) (marks'.find? fun m => m.1 = path) :=
  find?_forall₂ alike fun m m' same => by rw [same.1]

theorem Near.setMark {r : Run σ} {r' : Run σ'} (near : t.Near exact r r') (path : Path)
    {e e' : Option ResponseError} (same : Option.Rel (ResponseError.Like exact) e e') :
    t.Near exact (Exec.setMark path e r) (Exec.setMark path e' r') :=
  { near with marks := .cons ⟨rfl, same⟩ (near.marks.erase path) }

theorem Near.takeMark {r : Run σ} {r' : Run σ'} (near : t.Near exact r r') (path : Path) :
    Option.Rel (Option.Rel (ResponseError.Like exact)) (Exec.takeMark path r).1
      (Exec.takeMark path r').1 ∧
    t.Near exact (Exec.takeMark path r).2 (Exec.takeMark path r').2 := by
  have found := near.marks.find path
  unfold Exec.takeMark
  generalize r.marks.find? (fun m => m.1 = path) = m at found ⊢
  generalize r'.marks.find? (fun m => m.1 = path) = m' at found ⊢
  cases found with
  | none => exact ⟨.none, near⟩
  | some same => exact ⟨.some same.2, { near with marks := near.marks.erase path }⟩

theorem takeMark_store (path : Path) (r : Run σ) : (Exec.takeMark path r).2.store = r.store :=
  (Exec.takeMark_eq path r).2.1

namespace Along

theorem absorb (path : Path) (nullable : Bool) {e e' : ResponseError}
    (like : ResponseError.Like exact e e') :
    t.Along exact (ResponseError.Like exact) Eq (Exec.absorb path nullable e)
      (Exec.absorb path nullable e') := by
  cases nullable with
  | false => exact throw (like.located path)
  | true =>
    refine ⟨fun _ lost => lost, fun r r' near => .inr ⟨.ok rfl, ?_⟩⟩
    exact { near with absorbed := List.rel_append near.absorbed (.cons (like.located path) .nil) }

-- A computation with what is made of its errors.
theorem rescue {x : Exec σ (Option Datum)} {x' : Exec σ' (Option Datum)}
    {f : ResponseError → Exec σ (Option Datum)} {f' : ResponseError → Exec σ' (Option Datum)}
    {g : Exec σ (Option Datum)} {g' : Exec σ' (Option Datum)}
    (inside : t.Along exact (ResponseError.Like exact) Eq x x')
    (handles : ∀ e e', ResponseError.Like exact e e' →
      t.Along exact (ResponseError.Like exact) Eq (f e) (f' e'))
    (shown : ∀ r, g r = match x r with | (.ok d, r₁) => (.ok d, r₁) | (.error e, r₁) => f e r₁)
    (shown' : ∀ r, g' r = match x' r with | (.ok d, r₁) => (.ok d, r₁) | (.error e, r₁) => f' e r₁) :
    t.Along exact (ResponseError.Like exact) Eq g g' := by
  have keeps (r : Run σ) (lost : t.lost (x r).2.store) : t.lost (g r).2.store := by
    rw [shown]
    rcases ran : x r with ⟨e | d, r₁⟩
    · rw [ran] at lost
      exact (handles e e (.refl exact e)).keeps r₁ lost
    · rwa [ran] at lost
  refine ⟨fun r lost => keeps r (inside.keeps r lost), fun r r' near => ?_⟩
  rcases inside.meets r r' near with lost | ⟨agree, near⟩
  · exact .inl (keeps r lost)
  · rw [shown, shown']
    rcases ran : x r with ⟨y, r₁⟩
    rcases ran' : x' r' with ⟨y', r₁'⟩
    rw [ran, ran'] at agree near
    cases agree with
    | ok same => exact .inr ⟨.ok same, near⟩
    | error same => exact (handles _ _ same).meets r₁ r₁' near

theorem guard (path : Path) (nullable : Bool) {x : Exec σ (Option Datum)}
    {x' : Exec σ' (Option Datum)} (inside : t.Along exact (ResponseError.Like exact) Eq x x') :
    t.Along exact (ResponseError.Like exact) Eq (Exec.guard path nullable x)
      (Exec.guard path nullable x') :=
  inside.rescue (fun _ _ like => absorb path nullable like) (fun _ => rfl) fun _ => rfl

theorem catching (nullable : Bool) {x : Exec σ (Option Datum)}
    {x' : Exec σ' (Option Datum)} (inside : t.Along exact (ResponseError.Like exact) Eq x x') :
    t.Along exact (ResponseError.Like exact) Eq (Exec.catching nullable x)
      (Exec.catching nullable x') := by
  cases nullable with
  | false =>
    exact inside.rescue (fun _ _ like => throw like) (fun _ => rfl) fun _ => rfl
  | true =>
    refine inside.rescue (fun e e' like => ?_) (fun _ => rfl) fun _ => rfl
    refine ⟨fun _ lost => lost, fun r r' near => .inr ⟨.ok rfl, ?_⟩⟩
    exact { near with caught := List.rel_append near.caught (.cons like .nil) }

theorem relocated (path : Path) {x : Exec σ α} {x' : Exec σ' α}
    (inside : t.Along exact (ResponseError.Like exact) V x x') :
    t.Along exact (ResponseError.Like exact) V (Exec.relocated path x) (Exec.relocated path x') :=
  inside.adapt fun _ _ like => ⟨like.message, rfl, like.code, like.locations⟩

theorem element (path : Path) (nullable : Bool) {x : Exec σ (Option Datum)}
    {x' : Exec σ' (Option Datum)} (inside : t.Along exact (ResponseError.Like exact) Eq x x') :
    t.Along exact (ResponseError.Like exact) Eq (Exec.element path nullable x)
      (Exec.element path nullable x') := by
  have missing : t.Along exact (ResponseError.Like exact) Eq
      (if nullable then Pure.pure none else Exec.absorb path false Exec.missingElement : Exec σ _)
      (if nullable then Pure.pure none else Exec.absorb path false Exec.missingElement) := by
    split
    · exact pure rfl
    · exact absorb path false (.refl exact _)
  have taken : t.Along (ε := ResponseError) exact (ResponseError.Like exact)
      (Option.Rel (Option.Rel (ResponseError.Like exact)))
      (liftM (Exec.takeMark path : StateM (Run σ) _)) (liftM (Exec.takeMark path : StateM (Run σ') _)) := by
    refine ⟨fun r lost => ?_, fun r r' near => .inr ?_⟩
    · rw [lift_apply, takeMark_store]
      exact lost
    · obtain ⟨found, near⟩ := near.takeMark path
      exact ⟨.ok found, near⟩
  refine taken.bind (Option.rel_refl (Option.rel_refl (.refl exact))) fun m m' found => ?_
  cases found with
  | none => exact inside.guard path nullable
  | some found =>
    cases found with
    | none => exact missing
    | some like => exact absorb path nullable like

theorem elements (nullable : Bool) (path : Path) {W : α → α → Prop}
    {body : Path → α → Exec σ (Option Datum)} {body' : Path → α → Exec σ' (Option Datum)}
    (inside : ∀ here a a', W a a' →
      t.Along exact (ResponseError.Like exact) Eq (body here a) (body' here a'))
    {items items' : List α} (alike : List.Forall₂ W items items') (index : Nat) :
    t.Along exact (ResponseError.Like exact) Eq (Complete.elements nullable path body index items)
      (Complete.elements nullable path body' index items') := by
  induction alike generalizing index with
  | nil => exact pure rfl
  | cons same _ ih =>
    refine ((inside _ _ _ same).element _ nullable).bind (fun _ => rfl) ?_
    rintro d _ rfl
    refine (ih (index + 1)).bind (fun _ => rfl) ?_
    rintro ds _ rfl
    exact pure rfl

theorem fail (path : Path) {loc loc' : Location} (place : exact → loc' = loc) (message : String) :
    t.Along exact (ResponseError.Like exact) V (Complete.fail path loc message)
      (Complete.fail path loc' message) :=
  throw ⟨rfl, rfl, rfl, fun same => by rw [place same]⟩

theorem absent (nonNull : Bool) (path : Path) {loc loc' : Location} (place : exact → loc' = loc) :
    t.Along exact (ResponseError.Like exact) Eq (Complete.absent nonNull path loc)
      (Complete.absent nonNull path loc') := by
  cases nonNull with
  | true => exact fail path place _
  | false => exact pure rfl

end Along

end Tandem

end RowGraph
