import RowGraph.Proofs.Placement.Pairing
/-!
The elements of a list that may be null, one by one. What one of them reads and leaves behind lies at
its own index, so the others are as if it were not there. Main statement: an element shows, with its
errors, what it shows when it is computed by itself.
-/

namespace RowGraph

variable {σ α : Type}

-- The errors that were absorbed between two moments at a position or below it.
def errorsAt (p : Path) (r r' : Run σ) : List ResponseError :=
  (r'.absorbed.drop r.absorbed.length).filter fun e => p.isPrefixOf e.path

theorem errorsAt_of_append {r r' : Run σ} {es : List ResponseError}
    (absorbed : r'.absorbed = r.absorbed ++ es) (p : Path) :
    errorsAt p r r' = es.filter fun e => p.isPrefixOf e.path := by
  unfold errorsAt
  rw [absorbed, List.drop_left]

theorem errorsAt_adds {p : Path} {r r' : Run σ} {es : List ResponseError} (adds : Adds p r r' es) :
    errorsAt p r r' = es := by
  rw [errorsAt_of_append adds.absorbed, List.filter_eq_self]
  exact fun e member => List.isPrefixOf_iff_prefix.mpr (adds.placed e member)

-- What is at an index of a list is at no other one.
theorem index_unique {here q : Path} {i j : Nat} (first : here ++ [.index i] <+: q)
    (second : here ++ [.index j] <+: q) : i = j := by
  obtain ⟨u, rfl⟩ := first
  obtain ⟨v, same⟩ := second
  simp only [List.append_assoc, List.append_cancel_left_eq, List.singleton_append, List.cons.injEq,
    Segment.index.injEq] at same
  exact same.1.symm

-- What some elements of a list change: all of it lies at their indices.
structure Spread (here : Path) (lo hi : Nat) (r r' : Run σ) (es : List ResponseError) : Prop where
  store : r'.store = r.store
  outside : ∀ q, (∀ j, lo ≤ j → j < hi → ¬ here ++ [.index j] <+: q) →
    markAt r'.marks q = markAt r.marks q
  absorbed : r'.absorbed = r.absorbed ++ es
  placed : ∀ e ∈ es, ∃ j, lo ≤ j ∧ j < hi ∧ here ++ [.index j] <+: e.path

namespace Spread

variable {here : Path}

theorem refl (lo hi : Nat) (r : Run σ) : Spread here lo hi r r [] :=
  ⟨rfl, fun _ _ => rfl, (List.append_nil _).symm, fun _ absurd => nomatch absurd⟩

theorem trans {lo hi : Nat} {r r' r'' : Run σ} {es es' : List ResponseError}
    (first : Spread here lo hi r r' es) (second : Spread here lo hi r' r'' es') :
    Spread here lo hi r r'' (es ++ es') := by
  refine ⟨second.store.trans first.store, fun q outside => ?_, ?_, fun e member => ?_⟩
  · rw [second.outside q outside, first.outside q outside]
  · rw [second.absorbed, first.absorbed, List.append_assoc]
  · exact (List.mem_append.mp member).elim (first.placed e) (second.placed e)

theorem wider {lo hi lo' hi' : Nat} {r r' : Run σ} {es : List ResponseError}
    (spread : Spread here lo hi r r' es) (above : lo' ≤ lo) (below : hi ≤ hi') :
    Spread here lo' hi' r r' es := by
  refine ⟨spread.store, fun q outside => ?_, spread.absorbed, fun e member => ?_⟩
  · exact spread.outside q fun j inside before => outside j (by omega) (by omega)
  · obtain ⟨j, inside, before, there⟩ := spread.placed e member
    exact ⟨j, by omega, by omega, there⟩

-- Elsewhere nothing has changed.
theorem marks {lo hi i : Nat} {r r' : Run σ} {es : List ResponseError}
    (spread : Spread here lo hi r r' es) (other : i < lo ∨ hi ≤ i) (u : Path) :
    markAt r'.marks (here ++ [.index i] ++ u) = markAt r.marks (here ++ [.index i] ++ u) := by
  refine spread.outside _ fun j inside before there => ?_
  have same := index_unique there (List.prefix_append _ u)
  omega

theorem errors {lo hi i : Nat} {r r' : Run σ} {es : List ResponseError}
    (spread : Spread here lo hi r r' es) (other : i < lo ∨ hi ≤ i) :
    (es.filter fun e => (here ++ [Segment.index i]).isPrefixOf e.path) = [] := by
  refine List.filter_eq_nil_iff.mpr fun e member there => ?_
  obtain ⟨j, inside, before, placed⟩ := spread.placed e member
  have same := index_unique placed (List.isPrefixOf_iff_prefix.mp there)
  omega

end Spread

namespace Exec

theorem guard_nullable (p : Path) (x : Exec σ (Option Datum)) (r : Run σ) :
    ∃ d r', guard p true x r = (.ok d, r') := by
  unfold guard
  rcases x r with ⟨e | d, r'⟩
  · exact ⟨none, _, rfl⟩
  · exact ⟨d, r', rfl⟩

theorem element_nullable (p : Path) (x : Exec σ (Option Datum)) (r : Run σ) :
    ∃ d r', element p true x r = (.ok d, r') := by
  unfold element
  rw [bind_apply, lift_apply]
  rcases takeMark p r with ⟨_ | _ | e, r'⟩
  · exact guard_nullable p x r'
  · exact ⟨none, r', rfl⟩
  · exact ⟨none, _, rfl⟩

-- Without a mark an element is a position like any other.
theorem element_unmarked {p : Path} {nullable : Bool} {x : Exec σ (Option Datum)} {r : Run σ}
    (unmarked : markAt r.marks p = none) : element p nullable x r = guard p nullable x r := by
  have missing := Option.map_eq_none_iff.mp unmarked
  unfold element
  rw [bind_apply, lift_apply]
  unfold takeMark
  rw [missing]

end Exec

-- A computation that goes by what lies at its own position only.
def Exec.Confined (p : Path) (x : Exec σ α) : Prop :=
  Pairing.Parallel ⟨p, p, id⟩ (Pairing.Echo ⟨p, p, id⟩) x x

-- What waits at a position or below it are errors that have no position yet, or none at all.
def Loose (p : Path) (marks : List (Path × Option ResponseError)) : Prop :=
  ∀ u e, markAt marks (p ++ u) = some (some e) → e.path = []

theorem Loose.abreast {p : Path} {r : Run σ} (loose : Loose p r.marks) :
    Pairing.Abreast ⟨p, p, id⟩ r r := by
  refine ⟨rfl, fun u _ => ?_⟩
  have free := loose u
  generalize markAt r.marks (p ++ u) = mark at free
  match mark, free with
  | none, _ => exact .none
  | some none, _ => exact .some .none
  | some (some e), free =>
    refine .some (.some ⟨rfl, rfl, (List.map_id _).symm, ?_⟩)
    rw [free e rfl]
    exact .unplaced

-- The elements that come later find what they would have found before.
theorem Spread.loose {here : Path} {i : Nat} {r r' : Run σ} {es : List ResponseError}
    (spread : Spread here i (i + 1) r r' es)
    (loose : ∀ j, i ≤ j → Loose (here ++ [.index j]) r.marks) (j : Nat) (later : i + 1 ≤ j) :
    Loose (here ++ [.index j]) r'.marks := by
  intro u e
  rw [spread.marks (.inr later)]
  exact loose j (by omega) u e

theorem Loose.takeMark {p : Path} {r : Run σ} (loose : Loose p r.marks) (q : Path) :
    Loose p (Exec.takeMark q r).2.marks := by
  intro u e
  rw [(Exec.takeMark_eq q r).2.2.2.2]
  split
  · exact fun absurd => nomatch absurd
  · exact loose u e

namespace Spread

variable (here : Path) (i : Nat)

theorem takeMark (r : Run σ) :
    Spread here i (i + 1) r (Exec.takeMark (here ++ [.index i]) r).2 [] := by
  obtain ⟨_, store, absorbed, _, marks⟩ := Exec.takeMark_eq (here ++ [.index i]) r
  refine ⟨store, fun q outside => ?_, ?_, fun _ absurd => nomatch absurd⟩
  · rw [marks, if_neg]
    rintro rfl
    exact outside i (Nat.le_refl i) (Nat.lt_succ_self i) (List.prefix_refl _)
  · rw [absorbed, List.append_nil]

-- The element is null, and its error is at its own position.
theorem absorb (r : Run σ) {e : ResponseError} (free : e.path = []) : Spread here i (i + 1) r
    { r with absorbed := r.absorbed ++ [Exec.located (here ++ [.index i]) e] }
    [Exec.located (here ++ [.index i]) e] := by
  refine ⟨rfl, fun _ _ => rfl, rfl, fun e' member => ?_⟩
  rw [List.mem_singleton.mp member, Exec.located_path, if_pos free]
  exact ⟨i, Nat.le_refl i, Nat.lt_succ_self i, List.prefix_refl _⟩

theorem ofAdds {r r' : Run σ} {es : List ResponseError}
    (adds : Adds (here ++ [.index i]) r r' es) : Spread here i (i + 1) r r' es := by
  refine ⟨adds.store, fun q outside => adds.outside q ?_, adds.absorbed, ?_⟩
  · rintro ⟨s, rest, rfl⟩
    exact outside i (Nat.le_refl i) (Nat.lt_succ_self i) (List.prefix_append _ _)
  · exact fun e member => ⟨i, Nat.le_refl i, Nat.lt_succ_self i, adds.placed e member⟩

end Spread

theorem element_spread {here : Path} {i : Nat} {x : Exec σ (Option Datum)}
    (confined : Exec.Confined (here ++ [.index i]) x) {r : Run σ}
    (loose : Loose (here ++ [.index i]) r.marks) :
    ∃ d r' es, Exec.element (here ++ [.index i]) true x r = (.ok d, r') ∧
      Spread here i (i + 1) r r' es := by
  have start := Spread.takeMark here i r
  have found := (Exec.takeMark_eq (here ++ [.index i]) r).1
  have later := loose.takeMark (here ++ [.index i])
  unfold Exec.element
  rw [bind_apply, lift_apply]
  generalize Exec.takeMark (here ++ [.index i]) r = w at start found later ⊢
  obtain ⟨mark, r₁⟩ := w
  match mark, found with
  | some (some e), found =>
    have waits : markAt r.marks (here ++ [.index i] ++ []) = some (some e) := by
      rw [List.append_nil]
      exact found.symm
    exact ⟨none, _, _, rfl, start.trans (.absorb here i r₁ (loose [] e waits))⟩
  | some none, _ => exact ⟨none, r₁, [], rfl, start⟩
  | none, _ =>
    have enters : Pairing.Enters ⟨here ++ [.index i], here ++ [.index i], id⟩ [] :=
      ⟨by simp, by simp⟩
    have meets := Pairing.Parallel.guard enters true confined r₁ r₁ later.abreast
    simp only [List.append_nil] at meets
    obtain ⟨d, r₂, ran⟩ := Exec.guard_nullable (here ++ [.index i]) x r₁
    rw [ran] at meets
    obtain ⟨es, _, adds, _, _⟩ := meets.errors
    exact ⟨d, r₂, es, ran, start.trans (.ofAdds here i adds)⟩

theorem elements_cons {here : Path} {body : Path → α → Exec σ (Option Datum)} {a : α}
    {rest : List α} {index : Nat} {r r₁ r₂ : Run σ} {d : Option Datum} {ds : List Datum}
    (first : Exec.element (here ++ [.index index]) true (body (here ++ [.index index]) a) r =
      (.ok d, r₁))
    (later : Complete.elements true here body (index + 1) rest r₁ = (.ok ds, r₂)) :
    Complete.elements true here body index (a :: rest) r = (.ok (d.getD .null :: ds), r₂) := by
  unfold Complete.elements
  rw [bind_apply, first]
  simp only
  rw [bind_apply, later]
  rfl

section

variable {here : Path} {body : Path → α → Exec σ (Option Datum)}
  (confined : ∀ p a, p ≠ [] → Exec.Confined p (body p a))

include confined

-- A whole list of elements always has its data.
theorem elements_spread (as : List α) (index : Nat) (r : Run σ)
    (loose : ∀ j, index ≤ j → Loose (here ++ [.index j]) r.marks) :
    ∃ ds r' es, Complete.elements true here body index as r = (.ok ds, r') ∧
      Spread here index (index + as.length) r r' es := by
  induction as generalizing index r with
  | nil => exact ⟨[], r, [], rfl, .refl _ _ r⟩
  | cons a rest ih =>
    obtain ⟨d, r₁, es, ran, spread⟩ :=
      element_spread (confined (here ++ [.index index]) a (by simp)) (loose index (Nat.le_refl _))
    obtain ⟨ds, r₂, es', ran', spread'⟩ := ih (index + 1) r₁ (spread.loose loose)
    have length : index + (a :: rest).length = index + 1 + rest.length := by
      rw [List.length_cons]
      omega
    refine ⟨d.getD .null :: ds, r₂, es ++ es', elements_cons ran ran', ?_⟩
    rw [length]
    exact (spread.wider (by omega) (by omega)).trans (spread'.wider (by omega) (by omega))

-- One element of the list is as it is by itself, from a state in which the same waits for it.
theorem elements_at (as : List α) (index : Nat) (r : Run σ)
    (loose : ∀ j, index ≤ j → Loose (here ++ [.index j]) r.marks) {i : Nat} {a : α}
    (found : as[i]? = some a) :
    ∃ ds r' r₁ d r₂, Complete.elements true here body index as r = (.ok ds, r') ∧
      ds[i]? = some (d.getD .null) ∧ r₁.store = r.store ∧
      (∀ u, markAt r₁.marks (here ++ [.index (index + i)] ++ u) =
        markAt r.marks (here ++ [.index (index + i)] ++ u)) ∧
      Exec.element (here ++ [.index (index + i)]) true (body (here ++ [.index (index + i)]) a) r₁ =
        (.ok d, r₂) ∧
      errorsAt (here ++ [.index (index + i)]) r r' =
        errorsAt (here ++ [.index (index + i)]) r₁ r₂ := by
  induction as generalizing index r i with
  | nil => cases found
  | cons first rest ih =>
    obtain ⟨d, r₁, es, ran, spread⟩ :=
      element_spread (confined (here ++ [.index index]) first (by simp)) (loose index (Nat.le_refl _))
    cases i with
    | zero =>
      obtain rfl := Option.some.inj found
      obtain ⟨ds, r', es', ran', spread'⟩ :=
        elements_spread confined rest (index + 1) r₁ (spread.loose loose)
      refine ⟨_, r', r, d, r₁, elements_cons ran ran', rfl, rfl, fun _ => rfl, ran, ?_⟩
      have absorbed : r'.absorbed = r.absorbed ++ (es ++ es') := by
        rw [spread'.absorbed, spread.absorbed, List.append_assoc]
      rw [errorsAt_of_append absorbed, errorsAt_of_append spread.absorbed, List.filter_append,
        spread'.errors (.inl (by omega)), List.append_nil]
    | succ i =>
      obtain ⟨ds, r', r₂, d', r₃, ran', shown, store, marks, alone, errors⟩ :=
        ih (index + 1) r₁ (spread.loose loose) found
      rw [show index + 1 + i = index + (i + 1) by omega] at marks alone errors
      refine ⟨_, r', r₂, d', r₃, elements_cons ran ran', shown, store.trans spread.store,
        fun u => ?_, alone, ?_⟩
      · rw [marks, spread.marks (.inr (by omega))]
      · obtain ⟨_, _, es', ran'', spread'⟩ :=
          elements_spread confined rest (index + 1) r₁ (spread.loose loose)
        obtain ⟨_, rfl⟩ := Prod.mk.inj (ran'.symm.trans ran'')
        have absorbed : r'.absorbed = r.absorbed ++ (es ++ es') := by
          rw [spread'.absorbed, spread.absorbed, List.append_assoc]
        rw [← errors, errorsAt_of_append absorbed, errorsAt_of_append spread'.absorbed,
          List.filter_append, spread.errors (.inr (by omega)), List.nil_append]

end

end RowGraph
