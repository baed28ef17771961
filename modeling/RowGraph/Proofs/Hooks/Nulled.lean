import RowGraph.Proofs.Propagation.Absorption
/-!
What becomes null by the errors of some fields. Such an error goes outwards until it is stopped at a
position, which is null then, or out of the response. Main statement: with every position that is
entered, what was nulled inside of it stays nulled, and an error that leaves it either nulls the
position or goes on.
-/

namespace RowGraph

variable {seen more inside : List Invocation} {v : Visit} {around : List Visit}
  {e : ResponseError} {q : Path}

namespace Line

theorem mono (subset : seen ⊆ more) (line : Line seen v around inside) :
    Line more v around inside := by
  induction line with
  | outermost member => exact .outermost (subset member)
  | inner _ member ih => exact .inner ih member

-- The same positions, with one more around all of them.
theorem within (u : Visit) (line : Line seen v around inside) :
    Line [.position u seen] v (around ++ [u]) inside := by
  induction line with
  | outermost member => exact .inner (.outermost (List.mem_singleton_self _)) member
  | inner _ member ih => exact .inner ih member

end Line

-- An error is stopped at a position, and at none before.
def StopsAt (q : Path) (e : ResponseError) (line : List Visit) : Prop :=
  ∃ between stop outer, line = between ++ stop :: outer ∧ Escapes e between ∧
    stop.place.nullable = true ∧ stop.answer = .ok none ∧ stop.place.path = q

theorem StopsAt.append {line : List Visit} (stops : StopsAt q e line) (outer : List Visit) :
    StopsAt q e (line ++ outer) := by
  obtain ⟨between, stop, rest, rfl, escapes, stopped⟩ := stops
  exact ⟨between, stop, rest ++ outer, by simp, escapes, stopped⟩

-- A position that is null by the error of one of some fields.
def Nulled (barred : Visit → Prop) (seen : List Invocation) (q : Path) : Prop :=
  ∃ v around inside e, Line seen v around inside ∧ barred v ∧ v.raised = some e ∧
    StopsAt q (Exec.located v.place.path e) (v :: around)

-- An error of one of these fields that nothing has stopped.
def Lost (barred : Visit → Prop) (seen : List Invocation) (e : ResponseError) : Prop :=
  ∃ v around inside e', Line seen v around inside ∧ barred v ∧ v.raised = some e' ∧
    Exec.located v.place.path e' = e ∧ Escapes e (v :: around)

variable {barred : Visit → Prop}

namespace Nulled

theorem mono (subset : seen ⊆ more) (nulled : Nulled barred seen q) : Nulled barred more q := by
  obtain ⟨v, around, inside, e, line, rest⟩ := nulled
  exact ⟨v, around, inside, e, line.mono subset, rest⟩

theorem within (u : Visit) (nulled : Nulled barred seen q) :
    Nulled barred [.position u seen] q := by
  obtain ⟨v, around, inside, e, line, bars, raised, stops⟩ := nulled
  exact ⟨v, around ++ [u], inside, e, line.within u, bars, raised, stops.append [u]⟩

theorem here (bars : barred v) (raised : v.raised = some e) (nullable : v.place.nullable = true)
    (null : v.answer = .ok none) : Nulled barred [.position v inside] v.place.path := by
  have none : Escapes (Exec.located v.place.path e) [] := fun _ absurd => nomatch absurd
  exact ⟨v, [], inside, e, .outermost (List.mem_singleton_self _), bars, raised,
    [], v, [], rfl, none, nullable, null, rfl⟩

end Nulled

namespace Lost

theorem mono (subset : seen ⊆ more) (lost : Lost barred seen e) : Lost barred more e := by
  obtain ⟨v, around, inside, e', line, rest⟩ := lost
  exact ⟨v, around, inside, e', line.mono subset, rest⟩

theorem here (bars : barred v) (raised : v.raised = some e) (nonNull : v.place.nullable = false)
    (left : v.answer = .error (Exec.located v.place.path e)) :
    Lost barred [.position v inside] (Exec.located v.place.path e) := by
  have escapes : Escapes (Exec.located v.place.path e) [v] := by
    intro u member
    rw [List.mem_singleton.mp member]
    exact ⟨nonNull, left⟩
  exact ⟨v, [], inside, e, .outermost (List.mem_singleton_self _), bars, raised, rfl, escapes⟩

-- It goes on if the position may not be null, and nulls it otherwise.
theorem within {u : Visit} (nonNull : u.place.nullable = false) (left : u.answer = .error e)
    (lost : Lost barred seen e) : Lost barred [.position u seen] e := by
  obtain ⟨v, around, inside, e', line, bars, raised, located, escapes⟩ := lost
  refine ⟨v, around ++ [u], inside, e', line.within u, bars, raised, located, fun w member => ?_⟩
  rw [← List.cons_append] at member
  rcases List.mem_append.mp member with old | last
  · exact escapes w old
  · rw [List.mem_singleton.mp last]
    exact ⟨nonNull, left⟩

theorem stops {u : Visit} (nullable : u.place.nullable = true) (null : u.answer = .ok none)
    (lost : Lost barred seen e) : Nulled barred [.position u seen] u.place.path := by
  obtain ⟨v, around, inside, e', line, bars, raised, rfl, escapes⟩ := lost
  exact ⟨v, around ++ [u], inside, e', line.within u, bars, raised,
    v :: around, u, [], rfl, escapes, nullable, null, rfl⟩

end Lost

-- Two accounts of errors that are the same, in order, but for errors inside of positions that have
-- been hit.
inductive ErrorsOff (hit : Path → Prop) : List ResponseError → List ResponseError → Prop where
  | nil : ErrorsOff hit [] []
  | both {e : ResponseError} {es es' : List ResponseError} : ErrorsOff hit es es' →
      ErrorsOff hit (e :: es) (e :: es')
  | left {q : Path} {e : ResponseError} {es es' : List ResponseError} : hit q → q <+: e.path →
      ErrorsOff hit es es' → ErrorsOff hit (e :: es) es'
  | right {q : Path} {e : ResponseError} {es es' : List ResponseError} : hit q → q <+: e.path →
      ErrorsOff hit es es' → ErrorsOff hit es (e :: es')

namespace ErrorsOff

variable {hit : Path → Prop} {es es' fs fs' : List ResponseError}

theorem refl : ∀ es : List ResponseError, ErrorsOff hit es es
  | [] => .nil
  | _ :: rest => .both (refl rest)

theorem mono {wider : Path → Prop} (mono : ∀ q, hit q → wider q) (off : ErrorsOff hit es es') :
    ErrorsOff wider es es' := by
  induction off with
  | nil => exact .nil
  | both _ ih => exact .both ih
  | left here before _ ih => exact .left (mono _ here) before ih
  | right here before _ ih => exact .right (mono _ here) before ih

theorem append (first : ErrorsOff hit es es') (second : ErrorsOff hit fs fs') :
    ErrorsOff hit (es ++ fs) (es' ++ fs') := by
  induction first with
  | nil => exact second
  | both _ ih => exact .both ih
  | left here before _ ih => exact .left here before ih
  | right here before _ ih => exact .right here before ih

-- Errors that are all inside of one such position.
theorem placed (here : hit q) (first : ∀ e ∈ es, q <+: e.path) (second : ∀ e ∈ es', q <+: e.path) :
    ErrorsOff hit es es' := by
  induction es with
  | cons e rest ih =>
    exact .left here (first e List.mem_cons_self) (ih fun e' member =>
      first e' (List.mem_cons_of_mem _ member))
  | nil =>
    induction es' with
    | nil => exact .nil
    | cons e rest ih =>
      exact .right here (second e List.mem_cons_self) (ih fun e' member =>
        second e' (List.mem_cons_of_mem _ member))

end ErrorsOff

end RowGraph
