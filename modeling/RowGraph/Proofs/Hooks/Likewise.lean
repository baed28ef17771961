import RowGraph.Proofs.Hooks.Contained
import RowGraph.Proofs.Hooks.Nulled
import RowGraph.Proofs.Value.Spared
/-!
Two executions, one of which refuses some fields. The one keeps a record and works with marks, the
other one does neither. They go on side by side: as long as no error of a refused field is on its
way, they have the same but for what such errors have nulled, and once such an error has been stopped
they have again. Main statements: steps in a row, guards and elements keep two computations together.
-/

namespace RowGraph

variable {σ α β γ : Type}

-- What is alike where something may have been hit.
abbrev Likeness (α : Type) := (Path → Prop) → α → α → Prop

-- The more has been hit, the less is asked.
def Likeness.Monotone (like : Likeness α) : Prop :=
  ∀ (hit wider : Path → Prop), (∀ q, hit q → wider q) → ∀ a a', like hit a a' → like wider a a'

namespace Datum

abbrev at_ (p : Path) : Likeness (Option Datum) :=
  fun hit d d' => AgreesOff hit p (d.getD .null) (d'.getD .null)

theorem at_monotone (p : Path) : (at_ p).Monotone :=
  fun _ _ mono _ _ agrees => agrees.mono mono

theorem members_monotone (p : Path) : Likeness.Monotone fun hit => MembersOff hit p :=
  fun _ _ mono _ _ agrees => agrees.mono mono

theorem items_monotone (p : Path) (i : Nat) : Likeness.Monotone fun hit => ItemsOff hit p i :=
  fun _ _ mono _ _ agrees => agrees.mono mono

end Datum

-- Two states, each with what has come of another one: the same errors, but for those where something
-- was hit, and the same store. The second has no marks.
structure Grown (hit : Path → Prop) (r r' s s' : Run σ) : Prop where
  store : s'.store = s.store
  bare : s'.marks = []
  absorbed : ∃ es es', s.absorbed = r.absorbed ++ es ∧ s'.absorbed = r'.absorbed ++ es' ∧
    ErrorsOff hit es es'
  caught : ∃ es, s.caught = r.caught ++ es ∧ s'.caught = r'.caught ++ es

namespace Grown

variable {hit : Path → Prop} {r r' s s' t t' : Run σ}

theorem still (store : s'.store = s.store) (bare : s'.marks = []) (absorbed : s.absorbed = r.absorbed)
    (absorbed' : s'.absorbed = r'.absorbed) (caught : s.caught = r.caught)
    (caught' : s'.caught = r'.caught) : Grown hit r r' s s' :=
  ⟨store, bare,
    ⟨[], [], by rw [absorbed, List.append_nil], by rw [absorbed', List.append_nil], .nil⟩,
    [], by rw [caught, List.append_nil], by rw [caught', List.append_nil]⟩

theorem refl (store : r'.store = r.store) (bare : r'.marks = []) : Grown hit r r' r r' :=
  still store bare rfl rfl rfl rfl

theorem mono {wider : Path → Prop} (mono : ∀ q, hit q → wider q) (grown : Grown hit r r' s s') :
    Grown wider r r' s s' := by
  obtain ⟨store, bare, ⟨es, es', absorbed, absorbed', off⟩, caught⟩ := grown
  exact ⟨store, bare, ⟨es, es', absorbed, absorbed', off.mono mono⟩, caught⟩

theorem trans (first : Grown hit r r' s s') (second : Grown hit s s' t t') :
    Grown hit r r' t t' := by
  obtain ⟨es, es', absorbed, absorbed', off⟩ := first.absorbed
  obtain ⟨fs, fs', later, later', off'⟩ := second.absorbed
  obtain ⟨cs, caught, caught'⟩ := first.caught
  obtain ⟨ds, more, more'⟩ := second.caught
  refine ⟨second.store, second.bare, ⟨es ++ fs, es' ++ fs', ?_, ?_, off.append off'⟩, cs ++ ds, ?_, ?_⟩
  · rw [later, absorbed, List.append_assoc]
  · rw [later', absorbed', List.append_assoc]
  · rw [more, caught, List.append_assoc]
  · rw [more', caught', List.append_assoc]

-- Both have absorbed the same error.
theorem absorb (e : ResponseError) (store : r'.store = r.store) (bare : r'.marks = []) :
    Grown hit r r' { r with absorbed := r.absorbed ++ [e] }
      { r' with absorbed := r'.absorbed ++ [e] } :=
  ⟨store, bare, ⟨[e], [e], rfl, rfl, .refl [e]⟩, [], (List.append_nil _).symm,
    (List.append_nil _).symm⟩

theorem ofMirrored {described : Prop} {w w' : Except ε α × Run σ}
    (mirrored : Mirrored described r r' w w') : Grown hit r r' w.2 w'.2 := by
  obtain ⟨n, noted, noted', _⟩ := mirrored.notes
  exact ⟨mirrored.store, mirrored.bare, ⟨_, _, noted.absorbed, noted'.absorbed, .refl _⟩, _,
    noted.caught, noted'.caught⟩

-- All that has come of both is inside of a position that was hit.
theorem contained {p : Path} {w w' : Except ResponseError α × Run σ} (here : hit p)
    (level : r'.store = r.store) (inside : Contained p r w) (inside' : Contained p r' w')
    (bare : w'.2.marks = []) : Grown hit r r' w.2 w'.2 := by
  obtain ⟨es, absorbed, placed⟩ := inside.absorbs
  obtain ⟨es', absorbed', placed'⟩ := inside'.absorbs
  refine ⟨?_, bare, ⟨es, es', absorbed, absorbed', .placed here placed placed'⟩, [], ?_, ?_⟩
  · rw [inside'.store, level, inside.store]
  · rw [inside.caught, List.append_nil]
  · rw [inside'.caught, List.append_nil]

end Grown

-- What the two come to. If an error of a refused field is on its way, nothing is said of the other.
inductive Likewise (barred : Visit → Prop) (like : Likeness α) (r r' : Run σ) :
    Watch σ α → Except ResponseError α × Run σ → Prop where
  | ok {a a' : α} {s s' : Run σ} {seen : List Invocation} : like (Nulled barred seen) a a' →
      Grown (Nulled barred seen) r r' s s' → Likewise barred like r r' ⟨.ok a, s, seen⟩ (.ok a', s')
  | failed {fault : Fault} {s s' : Run σ} {seen : List Invocation} :
      Grown (Nulled barred seen) r r' s s' →
      Likewise barred like r r' ⟨.error fault, s, seen⟩ (.error fault.error, s')
  | lost {e : ResponseError} {s : Run σ} {seen : List Invocation}
      {y : Except ResponseError α × Run σ} : e.path ≠ [] → Lost barred seen e →
      Likewise barred like r r' ⟨.error (.passed e), s, seen⟩ y

namespace Likewise

variable {barred : Visit → Prop} {like : Likeness α} {r r' s s' : Run σ}

theorem pure {a a' : α} (store : r'.store = r.store) (bare : r'.marks = [])
    (alike : ∀ hit, like hit a a') :
    Likewise barred like r r' ((Pure.pure a : Watched σ α) r) ((Pure.pure a' : Exec σ α) r') :=
  .ok (alike _) (.refl store bare)

theorem after {w : Watch σ α} {y : Except ResponseError α × Run σ}
    (grown : Grown (fun _ => False) r r' s s') (later : Likewise barred like s s' w y) :
    Likewise barred like r r' w y := by
  have before {hit : Path → Prop} : Grown hit r r' s s' := grown.mono fun _ absurd => absurd.elim
  cases later with
  | ok alike grown' => exact .ok alike (before.trans grown')
  | failed grown' => exact .failed (before.trans grown')
  | lost placed lost => exact .lost placed lost

-- What does the same on both sides.
theorem own {described : Prop} {x y : Exec σ α} (alike : ∀ hit a, like hit a a)
    (mirrored : Mirrored described r r' (x r) (y r')) :
    Likewise barred like r r' (Watched.own x r) (y r') := by
  have grown {hit : Path → Prop} : Grown hit r r' (x r).2 (y r').2 := .ofMirrored mirrored
  have result := mirrored.result
  unfold Watched.own
  generalize x r = w at grown result ⊢
  generalize y r' = w' at grown result ⊢
  obtain ⟨given, s⟩ := w
  obtain ⟨given', s'⟩ := w'
  obtain rfl : given' = given := result
  cases given' with
  | ok a => exact .ok (alike _ a) grown
  | error e => exact .failed grown

theorem map {like' : Likeness β} {w : Watched σ α} {y : Exec σ α} (f : α → β)
    (alike : ∀ hit a a', like hit a a' → like' hit (f a) (f a'))
    (inside : Likewise barred like r r' (w r) (y r')) :
    Likewise barred like' r r' ((f <$> w) r) ((f <$> y) r') := by
  rw [map_apply, Watched.map_eq_bind]
  generalize ran : w r = u at inside
  generalize y r' = v at inside ⊢
  cases inside with
  | ok same grown =>
    rw [Watched.bind_of_ok (congrArg Watch.result ran), ran]
    change Likewise barred like' r r' ⟨.ok _, _, _ ++ []⟩ _
    rw [List.append_nil]
    exact .ok (alike _ _ _ same) grown
  | failed grown =>
    rw [Watched.bind_of_error (congrArg Watch.result ran), ran]
    exact .failed grown
  | lost placed lost =>
    rw [Watched.bind_of_error (congrArg Watch.result ran), ran]
    exact .lost placed lost

-- The schema is described alike on both sides.
theorem description {described : Prop} {x : Execution σ} {path p : Path} {head : FieldHead}
    {f : FieldDef} {children : List Node}
    (mirrored : Mirrored described r r' (x.enterDescription path head f children r)
      (x.enterDescription path head f children r')) :
    Likewise barred (Datum.at_ p) r r' (x.watchDescription path head f children r)
      (x.enterDescription path head f children r') := by
  have grown {hit : Path → Prop} : Grown hit r r' _ _ := .ofMirrored mirrored
  have result := mirrored.result
  unfold Execution.watchDescription
  generalize x.enterDescription path head f children r = w at grown result ⊢
  generalize x.enterDescription path head f children r' = w' at grown result ⊢
  obtain ⟨given, s⟩ := w
  obtain ⟨given', s'⟩ := w'
  obtain rfl : given' = given := result
  cases given' with
  | ok d => exact .ok (.refl _ _) grown
  | error e => exact .failed grown

-- What a field shows is a member of its object.
theorem member {p : Path} {key : String} {w : Watched σ (Option Datum)} {y : Exec σ (Option Datum)}
    (inside : Likewise barred (Datum.at_ (p ++ [.field key])) r r' (w r) (y r')) :
    Likewise barred (fun hit => Datum.MembersOff hit p) r r'
      ((do let d ← w; Pure.pure [(key, d.getD .null)]) r)
      ((do let d ← y; Pure.pure [(key, d.getD .null)]) r') := by
  have unfolded : (fun d : Option Datum => [(key, d.getD .null)]) <$> y =
      y >>= fun d => Pure.pure [(key, d.getD .null)] := map_eq_pure_bind _ y
  rw [← unfolded]
  exact inside.map _ fun _ _ _ same => .cons same .nil

-- Two steps in a row, each on both sides.
theorem both {like' : Likeness β} {joined : Likeness γ} {w : Watched σ α} {v : Watched σ β}
    {x : Exec σ α} {y : Exec σ β} {k : α → β → γ} (monotone : like.Monotone)
    (monotone' : like'.Monotone)
    (joins : ∀ hit a a' b b', like hit a a' → like' hit b b' → joined hit (k a b) (k a' b'))
    (first : Likewise barred like r r' (w r) (x r'))
    (rest : ∀ a, (w r).result = .ok a → (x r').2.store = (w r).run.store → (x r').2.marks = [] →
      Likewise barred like' (w r).run (x r').2 (v (w r).run) (y (x r').2)) :
    Likewise barred joined r r' ((do let a ← w; let b ← v; Pure.pure (k a b)) r)
      ((do let a ← x; let b ← y; Pure.pure (k a b)) r') := by
  rw [bind_apply]
  generalize ran : w r = u at first rest
  generalize x r' = u' at first rest ⊢
  cases first with
  | @ok a a' s s' seen alike grown =>
    rw [Watched.bind_of_ok (congrArg Watch.result ran), ran]
    have second := rest a rfl grown.store grown.bare
    dsimp only at second ⊢
    rw [bind_apply]
    generalize ran' : v s = z at second
    generalize y s' = z' at second ⊢
    have left : seen ⊆ seen ++ z.seen := List.subset_append_left _ _
    have right : z.seen ⊆ seen ++ z.seen := List.subset_append_right _ _
    cases second with
    | @ok b b' t t' more alike' grown' =>
      rw [Watched.bind_of_ok (congrArg Watch.result ran'), ran']
      change Likewise barred joined r r' ⟨.ok _, _, seen ++ (more ++ [])⟩ _
      rw [List.append_nil]
      refine .ok (joins _ _ _ _ _ ?_ ?_) (.trans (grown.mono fun q => .mono left)
        (grown'.mono fun q => .mono right))
      · exact monotone _ _ (fun q => .mono left) _ _ alike
      · exact monotone' _ _ (fun q => .mono right) _ _ alike'
    | failed grown' =>
      rw [Watched.bind_of_error (congrArg Watch.result ran'), ran']
      exact .failed ((grown.mono fun q => .mono left).trans (grown'.mono fun q => .mono right))
    | lost placed lost =>
      rw [Watched.bind_of_error (congrArg Watch.result ran'), ran']
      exact .lost placed (lost.mono right)
  | failed grown =>
    rw [Watched.bind_of_error (congrArg Watch.result ran), ran]
    exact .failed grown
  | lost placed lost =>
    rw [Watched.bind_of_error (congrArg Watch.result ran), ran]
    exact .lost placed lost

theorem same {p : Path} {x y : Exec σ (Option Datum)} (mirrors : Mirrors False (Below p) x y)
    (level : Level (Below p) r r') :
    Likewise barred (Datum.at_ p) r r' (Watched.own x r) (y r') :=
  own (fun _ _ => .refl _ _) (mirrors r r' level).1

-- A position that may be null stops what has come to it; if that was an error of a refused field,
-- the position is null by it.
theorem close {p : Path} {v : Visit} {w : Watch σ (Option Datum)} {body : Exec σ (Option Datum)}
    (place : v.place.path = p) (level : r'.store = r.store) (contained : Contained p r w.erase)
    (contained' : Contained p r' (body r')) (bare : (body r').2.marks = [])
    (inside : Likewise barred (Datum.at_ p) r r' w (body r')) :
    Likewise barred (Datum.at_ p) r r' (Watched.close v w)
      (Exec.guard p v.place.nullable body r') := by
  obtain ⟨outside, marks⟩ := contained'.guard v.place.nullable
  subst place
  have nullable_ok := Exec.guard_nullable v.place.path body r'
  unfold Watched.close
  generalize ran : body r' = y at inside
  cases inside with
  | @ok d d' s s' seen alike grown =>
    have guarded : Exec.guard v.place.path v.place.nullable body r' = (.ok d', s') := by
      unfold Exec.guard
      rw [ran]
    rw [guarded]
    exact .ok (alike.mono fun q => .within _) (grown.mono fun q => .within _)
  | @failed fault s s' seen grown =>
    have guarded : Exec.guard v.place.path v.place.nullable body r' =
        Exec.absorb v.place.path v.place.nullable fault.error s' := by
      unfold Exec.guard
      rw [ran]
    rw [guarded]
    dsimp only
    cases v.place.nullable with
    | true =>
      refine .ok (.refl _ _) (.trans (grown.mono fun q => .within _) ?_)
      exact .absorb _ grown.store grown.bare
    | false => exact .failed (grown.mono fun q => .within _)
  | @lost e s seen _ placed lost =>
    have same : Exec.located v.place.path e = e := Exec.located_of_path placed _
    dsimp only [Fault.error, Fault.raised?]
    rw [same]
    cases nullable : v.place.nullable with
    | true =>
      rw [nullable] at outside marks
      obtain ⟨d', s', guarded⟩ := nullable_ok
      rw [guarded] at outside marks ⊢
      have here : v.place.path <+: e.path := (contained.fails e rfl).resolve_left placed
      have stopped : Contained v.place.path r
          ((.ok none, { s with absorbed := s.absorbed ++ [e] }) :
            Except ResponseError (Option Datum) × Run σ) :=
        ⟨contained.store, contained.caught, contained.absorbs.trans (.one rfl here),
          fun _ absurd => nomatch absurd⟩
      have nulled := lost.stops (u := { v with raised := none, answer := .ok none }) nullable rfl
      exact .ok (.hit nulled) (.contained nulled level stopped outside (marks.trans bare))
    | false => exact .lost placed (.within nullable rfl lost)

-- What a refused field comes to, next to whatever it comes to otherwise.
theorem bar {p : Path} {v : Visit} {e : ResponseError} {body : Exec σ (Option Datum)}
    (place : v.place.path = p) (inner : p ≠ []) (bars : ∀ u : Visit, u.place = v.place → barred u)
    (free : e.path = []) (level : r'.store = r.store) (store : s.store = r.store)
    (absorbed : s.absorbed = r.absorbed) (caught : s.caught = r.caught)
    (contained : Contained p r' (body r')) (bare : (body r').2.marks = []) :
    Likewise barred (Datum.at_ p) r r' (Watched.close v ⟨.error (.raised e), s, []⟩)
      (Exec.guard p v.place.nullable body r') := by
  obtain ⟨outside, marks⟩ := contained.guard v.place.nullable
  subst place
  have nullable_ok := Exec.guard_nullable v.place.path body r'
  have located : (Exec.located v.place.path e).path = v.place.path := by
    rw [Exec.located_path, if_pos free]
  unfold Watched.close
  dsimp only [Fault.error, Fault.raised?]
  cases nullable : v.place.nullable with
  | true =>
    rw [nullable] at outside marks
    obtain ⟨d', s', guarded⟩ := nullable_ok
    rw [guarded] at outside marks ⊢
    let stopped : Run σ := { s with absorbed := s.absorbed ++ [Exec.located v.place.path e] }
    have here : Contained v.place.path r
        ((.ok none, stopped) : Except ResponseError (Option Datum) × Run σ) := by
      refine ⟨store, caught, .one (e := Exec.located v.place.path e) ?_ ?_,
        fun _ absurd => nomatch absurd⟩
      · exact congrArg (· ++ [Exec.located v.place.path e]) absorbed
      · rw [located]
    let u : Visit := { v with raised := some e, answer := .ok none }
    have nulled : Nulled barred [.position u []] v.place.path := .here (bars u rfl) rfl nullable rfl
    exact .ok (.hit nulled) (.contained nulled level here outside (marks.trans bare))
  | false =>
    let u : Visit :=
      { v with raised := some e, answer := .error (Exec.located v.place.path e) }
    refine .lost (by rwa [located]) ?_
    exact Lost.here (v := u) (bars u rfl) rfl nullable rfl

end Likewise

-- What is made of an element on both sides, wherever it is: it leaves no marks, what it does stays
-- inside of its position, and both have the same but for what has been nulled.
structure Bodies (barred : Visit → Prop) (body : Path → Outcome → Watched σ (Option Datum))
    (other : Path → Outcome → Exec σ (Option Datum)) : Prop where
  keeps : ∀ p o (r : Run σ), (∀ q, Below p q → markAt r.marks q = none) → Keeps r (body p o r).run
  contained : ∀ p o (r : Run σ), (∀ q, Below p q → markAt r.marks q = none) →
    Contained p r (body p o r).erase
  contained' : ∀ p o (r : Run σ), r.marks = [] →
    Contained p r (other p o r) ∧ (other p o r).2.marks = []
  alike : ∀ p o (r r' : Run σ), Level (Below p) r r' →
    Likewise barred (Datum.at_ p) r r' (body p o r) (other p o r')

namespace Bodies

variable {barred : Visit → Prop} {body : Path → Outcome → Watched σ (Option Datum)}
  {other : Path → Outcome → Exec σ (Option Datum)} (bodies : Bodies barred body other)

include bodies

-- An element, by the mark that waits for it and by what has become of it.
theorem element {p : Path} {loc : Location} (nullable : Bool) {link : Resolve.Link} {r r' : Run σ}
    (level : Level (Below p) r r') (waits : markAt r.marks p = link.mark loc) :
    Likewise barred (Datum.at_ p) r r' (Watched.element p nullable (body p link.outcome) r)
      (Direct.element loc p nullable (other p) link r') := by
  unfold Watched.element Direct.element
  cases link with
  | row o =>
    rw [takeMark_free waits]
    obtain ⟨direct, bare⟩ := bodies.contained' p o r' level.bare
    exact (bodies.alike p o r r' level).close (v := { place := { path := p, nullable } }) rfl
      level.store (bodies.contained p o r level.free) direct bare
  | empty =>
    obtain ⟨marks, took, _⟩ := takeMark_marked waits
    have still {hit : Path → Prop} : Grown hit r r' { r with marks } r' :=
      .still level.store level.bare rfl rfl rfl rfl
    rw [took]
    cases nullable with
    | true => exact .ok (.refl _ _) still
    | false => exact .failed still
  | broken e =>
    obtain ⟨marks, took, _⟩ := takeMark_marked waits
    have still {hit : Path → Prop} : Grown hit r r' { r with marks } r' :=
      .still level.store level.bare rfl rfl rfl rfl
    rw [took]
    cases nullable with
    | true => exact .ok (.refl _ _) (still.trans (.absorb _ level.store level.bare))
    | false => exact .failed still

-- After its turn no mark waits for an element any longer.
theorem taken {p : Path} (nullable : Bool) (o : Outcome) {r : Run σ}
    (free : ∀ q, Below p q → markAt r.marks q = none) (q : Path) :
    markAt (Watched.element p nullable (body p o) r).run.marks q =
      if q = p then none else markAt r.marks q := by
  have marks := (Exec.takeMark_eq p r).2.2.2.2
  obtain ⟨v, w, closes, _, found⟩ := Watched.element_close p nullable (body p o) r
  obtain ⟨_, closed⟩ := Watched.close_closed v w
  rw [closes, closed.marks, ← marks]
  rcases found with rfl | ⟨run, _⟩
  · refine bodies.keeps p o _ (fun q below => ?_) q
    rw [marks]
    split
    · rfl
    · exact free q below
  · rw [run]

-- All elements of a list, one after another, if the marks of their links wait and nothing else.
theorem elements {p : Path} (loc : Location) (nullable : Bool) (links : List Resolve.Link) (i : Nat)
    {r r' : Run σ} (store : r'.store = r.store) (bare : r'.marks = [])
    (free : ∀ j q, Below (p ++ [.index j]) q → markAt r.marks q = none)
    (waits : ∀ k link, links[k]? = some link →
      markAt r.marks (p ++ [.index (i + k)]) = link.mark loc) :
    Likewise barred (fun hit => Datum.ItemsOff hit p i) r r'
      (Watched.elements nullable p body i (links.map Resolve.Link.outcome) r)
      (Direct.elements loc nullable p other i links r') := by
  induction links generalizing i r r' with
  | nil => exact .pure store bare fun _ => .nil
  | cons link rest ih =>
    have shift (k : Nat) : i + 1 + k = i + (k + 1) := by omega
    have level : Level (Below (p ++ [.index i])) r r' := ⟨store, bare, free i⟩
    have gone := bodies.taken nullable link.outcome (free i)
    refine .both (Datum.at_monotone _) (Datum.items_monotone p (i + 1))
      (fun _ _ _ _ _ here more => .cons here more)
      (bodies.element nullable level (waits 0 link rfl)) fun _ _ store bare => ?_
    refine ih (i + 1) store bare (fun j q below => ?_) fun k found there => ?_
    · rw [gone]
      split
      · rfl
      · exact free j q below
    · rw [gone, if_neg (index_ne (by omega)), shift]
      exact waits (k + 1) found there

-- Where there are no marks, a list of values is one of rows.
theorem elements_rows (p : Path) (loc : Location) (nullable : Bool) (os : List Outcome) (i : Nat)
    {r : Run σ} (bare : r.marks = []) :
    Complete.elements nullable p other i os r =
      Direct.elements loc nullable p other i (os.map .row) r := by
  induction os generalizing i r with
  | nil => rfl
  | cons o rest ih =>
    have unmarked : markAt r.marks (p ++ [.index i]) = none := by
      rw [bare]
      rfl
    rw [Complete.elements, List.map_cons, Direct.elements, bind_apply, bind_apply,
      Exec.element_unmarked unmarked, Direct.element]
    have guarded : (Exec.guard (p ++ [.index i]) nullable (other (p ++ [.index i]) o) r).2.marks =
        [] := by
      obtain ⟨contained, clean⟩ := bodies.contained' (p ++ [.index i]) o r bare
      exact (contained.guard nullable).2.trans clean
    generalize Exec.guard (p ++ [.index i]) nullable (other (p ++ [.index i]) o) r = w at guarded ⊢
    obtain ⟨result, s⟩ := w
    cases result with
    | error e => rfl
    | ok d =>
      dsimp only
      rw [bind_apply, bind_apply, ih (i + 1) guarded]

-- A list of values, for which no marks wait.
theorem items {p : Path} (loc : Location) (nullable : Bool) (os : List Outcome) {r r' : Run σ}
    (level : Level (Below p) r r') :
    Likewise barred (Datum.at_ p) r r'
      (((some ∘ Datum.list) <$> Watched.elements nullable p body 0 os) r)
      (((some ∘ Datum.list) <$> Complete.elements nullable p other 0 os) r') := by
  have rows : (os.map Resolve.Link.row).map Resolve.Link.outcome = os := by
    rw [List.map_map]
    exact List.map_id os
  have elements := bodies.elements (p := p) loc nullable (os.map .row) 0 level.store level.bare
    (fun j q below => level.free q ((Below.snoc p (.index j)).trans below)) fun k link found => by
      obtain ⟨o, _, rfl⟩ := List.mem_map.mp (List.mem_of_getElem? found)
      exact level.free _ (.snoc p _)
  rw [rows, ← bodies.elements_rows p loc nullable os 0 level.bare] at elements
  exact elements.map _ fun _ _ _ same => .list same

end Bodies

end RowGraph
