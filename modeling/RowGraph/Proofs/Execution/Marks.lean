import RowGraph.Execution.Run
/-!
The marks of a request by the position they are for: what setting and taking a mark does to each
position.
-/

namespace RowGraph

-- A position strictly inside of another one.
def Below (p q : Path) : Prop := ∃ s rest, q = p ++ s :: rest

namespace Below

theorem ne {p q : Path} (below : Below p q) : q ≠ p := by
  obtain ⟨s, rest, rfl⟩ := below
  simp

theorem trans {p q u : Path} (first : Below p q) (second : Below q u) : Below p u := by
  obtain ⟨s, rest, rfl⟩ := first
  obtain ⟨s', rest', rfl⟩ := second
  exact ⟨s, rest ++ s' :: rest', by simp⟩

theorem snoc (p : Path) (s : Segment) : Below p (p ++ [s]) := ⟨s, [], rfl⟩

theorem append (p : Path) {u : Path} (inner : u ≠ []) : Below p (p ++ u) := by
  obtain ⟨s, rest, rfl⟩ := List.exists_cons_of_ne_nil inner
  exact ⟨s, rest, rfl⟩

end Below

def markAt (marks : List (Path × Option ResponseError)) (q : Path) :
    Option (Option ResponseError) := (marks.find? fun m => m.1 = q).map (·.2)

theorem markAt_filter (marks : List (Path × Option ResponseError)) (p q : Path) :
    markAt (marks.filter fun m => m.1 ≠ p) q = if q = p then none else markAt marks q := by
  unfold markAt
  rw [List.find?_filter]
  by_cases same : q = p
  · subst same
    rw [if_pos rfl]
    simp
  · rw [if_neg same]
    congr 2
    funext m
    by_cases here : m.1 = q <;> simp [here, same]

-- Every position has at most one mark.
def Distinct (marks : List (Path × Option ResponseError)) : Prop := (marks.map (·.1)).Nodup

theorem Distinct.filter {marks : List (Path × Option ResponseError)} (distinct : Distinct marks)
    (p : Path × Option ResponseError → Bool) : Distinct (marks.filter p) :=
  List.Nodup.sublist (List.Sublist.map _ List.filter_sublist) distinct

theorem markAt_of_mem {marks : List (Path × Option ResponseError)} (distinct : Distinct marks)
    {q : Path} {e : Option ResponseError} (member : (q, e) ∈ marks) : markAt marks q = some e := by
  induction marks with
  | nil => cases member
  | cons m rest ih =>
    obtain ⟨fresh, distinct⟩ := List.nodup_cons.mp distinct
    unfold markAt
    rcases List.mem_cons.mp member with rfl | later
    · simp
    · have other : m.1 ≠ q := fun same => fresh (List.mem_map.mpr ⟨(q, e), later, same.symm⟩)
      rw [List.find?_cons_of_neg (by simpa using other)]
      exact ih distinct later

theorem mem_of_markAt {marks : List (Path × Option ResponseError)} {q : Path}
    {e : Option ResponseError} (marked : markAt marks q = some e) : (q, e) ∈ marks := by
  obtain ⟨⟨q', e'⟩, found, rfl⟩ := Option.map_eq_some_iff.mp marked
  obtain rfl : q' = q := by simpa using List.find?_some found
  exact List.mem_of_find?_eq_some found

namespace Exec

variable {σ : Type}

theorem distinct_setMark {r : Run σ} (distinct : Distinct r.marks) (p : Path)
    (e : Option ResponseError) : Distinct (setMark p e r).marks := by
  refine List.nodup_cons.mpr ⟨?_, distinct.filter _⟩
  intro member
  obtain ⟨m, kept, same⟩ := List.mem_map.mp member
  exact of_decide_eq_true (List.mem_filter.mp kept).2 same

theorem distinct_takeMark {r : Run σ} (distinct : Distinct r.marks) (p : Path) :
    Distinct (takeMark p r).2.marks := by
  unfold takeMark
  cases r.marks.find? fun m => m.1 = p with
  | none => exact distinct
  | some m => exact distinct.filter _

theorem markAt_setMark (p : Path) (e : Option ResponseError) (r : Run σ) (q : Path) :
    markAt (setMark p e r).marks q = if q = p then some e else markAt r.marks q := by
  by_cases same : q = p
  · subst same
    simp [setMark, markAt]
  · have other : p ≠ q := Ne.symm same
    rw [if_neg same, setMark]
    have rest := markAt_filter r.marks p q
    rw [if_neg same] at rest
    rw [← rest]
    simp [markAt, other]

-- Taking a mark answers with it and removes it; nothing else changes.
theorem takeMark_eq (p : Path) (r : Run σ) :
    (takeMark p r).1 = markAt r.marks p ∧ (takeMark p r).2.store = r.store ∧
      (takeMark p r).2.absorbed = r.absorbed ∧ (takeMark p r).2.caught = r.caught ∧
      ∀ q, markAt (takeMark p r).2.marks q = if q = p then none else markAt r.marks q := by
  unfold takeMark
  cases found : r.marks.find? fun m => m.1 = p with
  | none =>
    have absent : markAt r.marks p = none := by rw [markAt, found]; rfl
    refine ⟨absent.symm, rfl, rfl, rfl, fun q => ?_⟩
    by_cases same : q = p
    · rw [if_pos same, same]
      exact absent
    · rw [if_neg same]
  | some m =>
    have there : markAt r.marks p = some m.2 := by rw [markAt, found]; rfl
    exact ⟨there.symm, rfl, rfl, rfl, markAt_filter r.marks p⟩

end Exec

end RowGraph
