import RowGraph.Proofs.Execution.Inquiry
import RowGraph.Proofs.Propagation.Law
/-!
Marks that are found by the elements that they are meant for. A computation at a position is tidy if
no error waits below it, before or after, and every error that was handed on inside has been found.
Main statement: steps in a row and elements are tidy.
-/

namespace RowGraph

variable {σ α : Type}

def Clean (p : Path) (marks : List (Path × Option ResponseError)) : Prop :=
  ∀ q e, Below p q → markAt marks q ≠ some (some e)

namespace Invocation

def path? : Invocation → Option Path
  | .position v _ => some v.place.path
  | .description _ _ => none

end Invocation

-- Every error that was handed on has been found by one element, and by no other, and nothing else
-- was found.
structure Delivered (handed : List (Path × ResponseError)) (inside : List Invocation) : Prop where
  found : ∀ q e, (q, e) ∈ handed → ∃ before u within after,
    inside = before ++ .position u within :: after ∧ u.place.path = q ∧ u.mark = some (some e) ∧
      ∀ i ∈ before ++ after, i.path? ≠ some q
  meant : ∀ u within e, .position u within ∈ inside → u.mark = some (some e) →
    (u.place.path, e) ∈ handed
  once : (handed.map Prod.fst).Nodup

-- An element that has found an error raises it, and does nothing else.
inductive Distributes : Invocation → Prop where
  | position {v : Visit} {inside : List Invocation} : Delivered v.handed inside →
      (∀ e, v.mark = some (some e) → v.raised = some e ∧ inside = []) →
      (∀ i ∈ inside, Distributes i) → Distributes (.position v inside)
  | description {stopped : List ResponseError} {left : Option ResponseError} :
      Distributes (.description stopped left)

-- What a computation at a position makes of the marks, if no error waits below it.
structure Tidy (p : Path) (r : Run σ) (w : Watch σ α) : Prop where
  distinct : Distinct w.run.marks
  outside : ∀ q, ¬ Below p q → markAt w.run.marks q = markAt r.marks q
  clean : Clean p w.run.marks
  plain : ∀ v inside, .position v inside ∈ w.seen → ∀ e, v.mark ≠ some (some e)
  distributes : ∀ i ∈ w.seen, Distributes i

def Tidies (α : Type) (p : Path) (r : Run σ) (w : Watch σ α) : Prop :=
  Distinct r.marks → Clean p r.marks → Tidy p r w

theorem Clean.inner {p q : Path} {marks : List (Path × Option ResponseError)} (below : Below p q)
    (clean : Clean p marks) : Clean q marks := fun u e inside => clean u e (below.trans inside)

theorem below_iff {p q : Path} : Below p q ↔ p <+: q ∧ p ≠ q := by
  constructor
  · rintro ⟨s, rest, rfl⟩
    exact ⟨List.prefix_append p _, by simp⟩
  · rintro ⟨⟨rest, rfl⟩, other⟩
    cases rest with
    | nil => exact absurd (List.append_nil p).symm other
    | cons s rest => exact ⟨s, rest, rfl⟩

theorem mem_handedOn {p q : Path} {e : ResponseError} {marks : List (Path × Option ResponseError)}
    (distinct : Distinct marks) :
    (q, e) ∈ handedOn p marks ↔ Below p q ∧ markAt marks q = some (some e) := by
  unfold handedOn
  rw [List.mem_filterMap, below_iff]
  constructor
  · rintro ⟨⟨q', e'⟩, member, shown⟩
    split at shown
    · rename_i below
      obtain ⟨e, rfl, same⟩ := Option.map_eq_some_iff.mp shown
      obtain ⟨rfl, rfl⟩ := Prod.mk.inj same
      exact ⟨by simpa [List.isPrefixOf_iff_prefix] using below, markAt_of_mem distinct member⟩
    · cases shown
  · rintro ⟨below, marked⟩
    refine ⟨(q, some e), mem_of_markAt marked, ?_⟩
    rw [if_pos (by simpa [List.isPrefixOf_iff_prefix] using below)]
    rfl

theorem handedOn_nodup {p : Path} {marks : List (Path × Option ResponseError)}
    (distinct : Distinct marks) : ((handedOn p marks).map Prod.fst).Nodup := by
  refine List.Nodup.sublist ?_ distinct
  unfold handedOn
  induction marks with
  | nil => exact .slnil
  | cons m rest ih =>
    have rest := ih (List.nodup_cons.mp distinct).2
    rw [List.filterMap_cons]
    split
    · exact rest.cons m.1
    · rename_i shown
      split at shown
      · obtain ⟨e, _, rfl⟩ := Option.map_eq_some_iff.mp shown
        exact rest.cons_cons m.1
      · cases shown

theorem handedOn_clean {p : Path} {marks : List (Path × Option ResponseError)}
    (distinct : Distinct marks) (clean : Clean p marks) : handedOn p marks = [] := by
  refine List.eq_nil_iff_forall_not_mem.mpr ?_
  rintro ⟨q, e⟩ member
  obtain ⟨below, marked⟩ := (mem_handedOn distinct).mp member
  exact clean q e below marked

theorem Tidy.idle {p : Path} {r : Run σ} {w : Watch σ α} (distinct : Distinct r.marks)
    (clean : Clean p r.marks) (run : w.run = r) (seen : w.seen = []) : Tidy p r w := by
  refine ⟨run ▸ distinct, fun _ _ => by rw [run], run ▸ clean, ?_, ?_⟩
  · rw [seen]
    exact fun _ _ absurd => nomatch absurd
  · rw [seen]
    exact fun _ absurd => nomatch absurd

-- One element: it takes the mark that waits for it, and leaves none.
structure Visited (p : Path) (nullable : Bool) (r : Run σ) (w : Watch σ (Option Datum)) (v : Visit)
    (inside : List Invocation) : Prop where
  seen : w.seen = [.position v inside]
  path : v.place.path = p
  mark : v.mark = markAt r.marks p
  distributes : Distributes (.position v inside)
  distinct : Distinct w.run.marks
  taken : markAt w.run.marks p = none
  outside : ∀ q, q ≠ p → ¬ Below p q → markAt w.run.marks q = markAt r.marks q
  clean : Clean p w.run.marks
  answers : nullable = true → ∃ d, w.result = .ok d

namespace Visited

variable {p : Path} {nullable : Bool} {r : Run σ}

theorem delivered_nil {inside : List Invocation}
    (plain : ∀ u within, .position u within ∈ inside → ∀ e, u.mark ≠ some (some e)) :
    Delivered [] inside := by
  refine ⟨fun q e member => (by cases member), fun u within e member marked => ?_, by simp⟩
  exact absurd marked (plain u within member e)

-- An element of which no more than its own result is known.
theorem closed {v : Visit} {w : Watch σ (Option Datum)} (place : v.place.path = p)
    (same : v.place.nullable = nullable) (mark : v.mark = markAt r.marks p) (none : v.handed = [])
    (error : ∀ e, v.mark = some (some e) → w.result = .error (.raised e) ∧ w.seen = [])
    (tidy : Tidy p (Exec.takeMark p r).2 w) :
    ∃ v' inside, Visited p nullable r (Watched.close v w) v' inside := by
  obtain ⟨v', closed⟩ := Watched.close_closed v w
  obtain ⟨_, _, _, _, marks⟩ := Exec.takeMark_eq p r
  refine ⟨v', w.seen, closed.seen, closed.place ▸ place, closed.mark.trans mark, ?_, ?_, ?_, ?_,
    ?_, ?_⟩
  · have delivered : Delivered v'.handed w.seen := by
      rw [closed.handed, none]
      exact delivered_nil tidy.plain
    refine .position delivered ?_ tidy.distributes
    intro e marked
    obtain ⟨result, quiet⟩ := error e (closed.mark ▸ marked)
    exact ⟨closed.raised e result, quiet⟩
  · exact closed.marks ▸ tidy.distinct
  · rw [closed.marks, tidy.outside p fun below => below.ne rfl, marks, if_pos rfl]
  · intro q other outside
    rw [closed.marks, tidy.outside q outside, marks, if_neg other]
  · exact closed.marks ▸ tidy.clean
  · exact fun nulls => closed.nullable (same.trans nulls)

theorem ofElement (nullable : Bool) {body : Watched σ (Option Datum)}
    (inside : Tidies _ p (Exec.takeMark p r).2 (body (Exec.takeMark p r).2))
    (distinct : Distinct r.marks) (clean : Clean p r.marks) :
    ∃ v inside, Visited p nullable r (Watched.element p nullable body r) v inside := by
  obtain ⟨answer, _, _, _, marks⟩ := Exec.takeMark_eq p r
  have distinct' : Distinct (Exec.takeMark p r).2.marks := Exec.distinct_takeMark distinct p
  have clean' : Clean p (Exec.takeMark p r).2.marks := by
    intro q e below
    rw [marks, if_neg below.ne]
    exact clean q e below
  unfold Watched.element
  split
  · rename_i e r' taken
    rw [taken] at answer
    refine closed rfl rfl answer rfl ?_ ?_
    · intro e' same
      obtain rfl : e = e' := Option.some.inj (Option.some.inj same)
      exact ⟨rfl, rfl⟩
    · exact .idle distinct' clean' (by rw [taken]) rfl
  · rename_i r' taken
    rw [taken] at answer
    refine closed rfl rfl answer rfl (fun _ same => nomatch same) ?_
    exact .idle distinct' clean' (by rw [taken]) rfl
  · rename_i r' taken
    refine closed rfl rfl ?_ rfl (fun _ same => nomatch same) ?_
    · rw [taken] at answer
      exact answer
    · have tidy := inside distinct' clean'
      rw [taken] at tidy ⊢
      exact tidy

end Visited

namespace Tidy

theorem ofVisited {p : Path} {i : Nat} {nullable : Bool} {r : Run σ} {w : Watch σ (Option Datum)}
    {v : Visit} {inside : List Invocation}
    (visited : Visited (p ++ [.index i]) nullable r w v inside) (clean : Clean p r.marks) :
    Tidy p r w := by
  have here : Below p (p ++ [.index i]) := Below.snoc p _
  refine ⟨visited.distinct, ?_, ?_, ?_, ?_⟩
  · intro q outside
    refine visited.outside q ?_ fun below => outside (here.trans below)
    rintro rfl
    exact outside here
  · intro q e below
    by_cases same : q = p ++ [.index i]
    · rw [same, visited.taken]
      exact fun absurd => nomatch absurd
    · by_cases inner : Below (p ++ [.index i]) q
      · exact visited.clean q e inner
      · rw [visited.outside q same inner]
        exact clean q e below
  · intro u within member e
    rw [visited.seen] at member
    cases List.mem_singleton.mp member
    rw [visited.mark]
    exact clean _ e here
  · intro j member
    rw [visited.seen] at member
    rw [List.mem_singleton.mp member]
    exact visited.distributes

theorem steps : Steps (σ := σ) Tidies where
  give α p r a distinct clean := .idle distinct clean rfl rfl
  raise α p r e _ _ distinct clean := .idle distinct clean rfl rfl
  next α β p r w a w' first _ rest distinct clean := by
    have start := first distinct clean
    have later := rest start.distinct start.clean
    refine ⟨later.distinct, ?_, later.clean, ?_, ?_⟩
    · intro q outside
      rw [later.outside q outside, start.outside q outside]
    · intro v inside member
      exact (List.mem_append.mp member).elim (start.plain v inside) (later.plain v inside)
    · intro i member
      exact (List.mem_append.mp member).elim (start.distributes i) (later.distributes i)
  stop α β p r w fault first _ distinct clean := by
    obtain ⟨distinct, outside, clean, plain, distributes⟩ := first distinct clean
    exact ⟨distinct, outside, clean, plain, distributes⟩
  atElement p i nullable body r inside distinct clean := by
    obtain ⟨v, within, visited⟩ := Visited.ofElement nullable inside distinct
      (clean.inner (Below.snoc p _))
    exact ofVisited visited clean

end Tidy

end RowGraph
