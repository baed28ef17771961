import Mathlib.Data.List.Nodup
import RowGraph.Proofs.Execution.Declared
import RowGraph.Proofs.Propagation.Tidy
import RowGraph.Proofs.Schema.Built
import RowGraph.Proofs.Schema.Shape
/-!
Errors that a resolver hands to elements of its list. In a schema that was made from a document
they are handed only to lists whose elements may be null, so no element keeps another one from being
reached, and each of them finds its error. Main statement: this is a law.
-/

namespace RowGraph

variable {σ α : Type}

-- Errors wait only for elements of a list, from an index on.
def Waiting (p : Path) (index count : Nat) (marks : List (Path × Option ResponseError)) : Prop :=
  ∀ q e, Below p q → markAt marks q = some (some e) →
    ∃ j, index ≤ j ∧ j < index + count ∧ q = p ++ [.index j]

namespace Waiting

variable {p : Path} {index count : Nat} {marks : List (Path × Option ResponseError)}

theorem inner (waiting : Waiting p index count marks) (i : Nat) : Clean (p ++ [.index i]) marks := by
  intro q e below marked
  obtain ⟨j, _, _, rfl⟩ := waiting q e ((Below.snoc p _).trans below) marked
  obtain ⟨s, more, same⟩ := below
  simp at same

theorem none (waiting : Waiting p index 0 marks) : Clean p marks := by
  intro q e below marked
  obtain ⟨j, above, under, _⟩ := waiting q e below marked
  omega

-- Once an element was reached, errors wait for those after it only.
theorem next {r : Run σ} {w : Watch σ (Option Datum)} {v : Visit} {inside : List Invocation}
    (waiting : Waiting p index (count + 1) r.marks)
    (visited : Visited (p ++ [.index index]) true r w v inside) :
    Waiting p (index + 1) count w.run.marks := by
  intro q e below marked
  by_cases same : q = p ++ [.index index]
  · rw [same, visited.taken] at marked
    cases marked
  · have outer : ¬ Below (p ++ [.index index]) q := fun inner => visited.clean q e inner marked
    rw [visited.outside q same outer] at marked
    obtain ⟨j, above, under, rfl⟩ := waiting q e below marked
    have other : j ≠ index := fun equal => same (by rw [equal])
    exact ⟨j, by omega, by omega, rfl⟩

end Waiting

-- All elements of a list, one after another, each with its mark.
structure Visits (p : Path) (index count : Nat) (r : Run σ) (w : Watch σ α)
    (visits : List (Visit × List Invocation)) : Prop where
  seen : w.seen = visits.map fun v => .position v.1 v.2
  paths : visits.map (fun v => v.1.place.path) =
    (List.range' index count).map fun j => p ++ [.index j]
  mark : ∀ v ∈ visits, v.1.mark = markAt r.marks v.1.place.path
  distributes : ∀ v ∈ visits, Distributes (.position v.1 v.2)
  distinct : Distinct w.run.marks
  outside : ∀ q, ¬ Below p q → markAt w.run.marks q = markAt r.marks q
  clean : Clean p w.run.marks

namespace Visits

variable {p : Path} {index count : Nat}

theorem place {r : Run σ} {w : Watch σ α} {visits : List (Visit × List Invocation)}
    (visited : Visits p index count r w visits) {v : Visit × List Invocation} (member : v ∈ visits) :
    ∃ j, index ≤ j ∧ v.1.place.path = p ++ [.index j] := by
  have place : v.1.place.path ∈ visits.map fun v => v.1.place.path := List.mem_map_of_mem member
  rw [visited.paths] at place
  obtain ⟨j, range, same⟩ := List.mem_map.mp place
  exact ⟨j, (List.mem_range'_1.mp range).1, same.symm⟩

theorem cons {r : Run σ} {w : Watch σ (Option Datum)} {v : Visit} {inside : List Invocation}
    {w' whole : Watch σ α} {visits : List (Visit × List Invocation)}
    (visited : Visited (p ++ [.index index]) true r w v inside)
    (rest : Visits p (index + 1) count w.run w' visits)
    (run : whole.run = w'.run) (seen : whole.seen = .position v inside :: w'.seen) :
    Visits p index (count + 1) r whole ((v, inside) :: visits) := by
  have below : Below p (p ++ [Segment.index index]) := Below.snoc p _
  refine ⟨?_, ?_, fun u member => ?_, fun u member => ?_, ?_, fun q outside => ?_, ?_⟩
  · rw [seen, rest.seen, List.map_cons]
  · rw [List.map_cons, rest.paths, visited.path]
    rfl
  · rcases List.mem_cons.mp member with rfl | old
    · rw [visited.path]
      exact visited.mark
    · obtain ⟨j, after, path⟩ := rest.place old
      rw [rest.mark u old, path]
      refine visited.outside _ (fun same => ?_) fun inner => ?_
      · simp at same
        omega
      · obtain ⟨s, more, same⟩ := inner
        simp at same
  · rcases List.mem_cons.mp member with rfl | old
    · exact visited.distributes
    · exact rest.distributes u old
  · rw [run]
    exact rest.distinct
  · rw [run, rest.outside q outside]
    refine visited.outside q ?_ fun inner => outside (below.trans inner)
    rintro rfl
    exact outside below
  · rw [run]
    exact rest.clean

-- An element that may be null lets all that come after it be reached.
theorem ofElements {body : Path → Outcome → Watched σ (Option Datum)}
    (inside : ∀ r q o, Tidies _ q r (body q o r)) (items : List Outcome) (index : Nat) (r : Run σ)
    (distinct : Distinct r.marks) (waiting : Waiting p index items.length r.marks) :
    ∃ visits, Visits p index items.length r (Watched.elements true p body index items r) visits := by
  induction items generalizing index r with
  | nil =>
    exact ⟨[], rfl, rfl, by simp, by simp, distinct, fun _ _ => rfl, waiting.none⟩
  | cons o rest ih =>
    let here := p ++ [Segment.index index]
    obtain ⟨v, within, visited⟩ := Visited.ofElement true (inside _ here o) distinct
      (waiting.inner index)
    obtain ⟨d, answer⟩ := visited.answers rfl
    obtain ⟨visits, later⟩ := ih (index + 1) _ visited.distinct (waiting.next visited)
    obtain ⟨run, seen⟩ := Watched.map_record (d.getD .null :: ·)
      (Watched.elements true p body (index + 1) rest) (Watched.element here true (body here o) r).run
    refine ⟨(v, within) :: visits, Visits.cons visited later ?_ ?_⟩
    · rw [Watched.elements, Watched.bind_of_ok answer]
      exact run
    · rw [Watched.elements, Watched.bind_of_ok answer, visited.seen]
      exact congrArg (Invocation.position v within :: ·) seen

theorem delivered {r : Run σ} {w : Watch σ α}
    {visits : List (Visit × List Invocation)} (visited : Visits p index count r w visits)
    (distinct : Distinct r.marks) (waiting : Waiting p index count r.marks) :
    Delivered (handedOn p r.marks) w.seen := by
  have nodup : (visits.map fun v => v.1.place.path).Nodup := by
    rw [visited.paths]
    refine List.Nodup.map ?_ List.nodup_range'
    intro i j same
    simpa using same
  refine ⟨?_, ?_, ?_⟩
  · intro q e member
    rw [mem_handedOn distinct] at member
    obtain ⟨below, marked⟩ := member
    obtain ⟨j, above, under, rfl⟩ := waiting q e below marked
    have place : p ++ [Segment.index j] ∈ visits.map fun v => v.1.place.path := by
      rw [visited.paths]
      exact List.mem_map_of_mem (List.mem_range'_1.mpr ⟨above, under⟩)
    obtain ⟨⟨u, within⟩, found, path⟩ := List.mem_map.mp place
    obtain ⟨before, after, split⟩ := List.append_of_mem found
    rw [split, List.map_append, List.map_cons, path] at nodup
    refine ⟨before.map fun v => .position v.1 v.2, u, within,
      after.map fun v => .position v.1 v.2, ?_, path, ?_, ?_⟩
    · rw [visited.seen, split, List.map_append, List.map_cons]
    · rw [visited.mark _ found, path, marked]
    · intro i other same
      rw [← List.map_append] at other
      obtain ⟨u', member, rfl⟩ := List.mem_map.mp other
      have twice := (List.nodup_middle.mp nodup)
      refine (List.nodup_cons.mp twice).1 ?_
      rw [← List.map_append, ← Option.some.inj same]
      exact List.mem_map_of_mem member
  · intro u within e member marked
    rw [visited.seen] at member
    obtain ⟨u', found, same⟩ := List.mem_map.mp member
    cases same
    rw [mem_handedOn distinct, ← visited.mark u' found]
    obtain ⟨j, _, path⟩ := visited.place found
    refine ⟨?_, marked⟩
    rw [path]
    exact Below.snoc p _
  · exact handedOn_nodup distinct

end Visits

theorem Schema.Grounded.lenient {s : Schema} (grounded : s.Grounded) {type field : String}
    {t : TypeDef} {f : FieldDef} {resolver : Resolver} (known : s.catalog.type? type = some t)
    (declared : t.field? field = some f)
    (resolves : FieldMap.get? s.resolvers type field = some resolver) (lenient : Lenient resolver) :
    ∃ item nonNull, f.type = .list item nonNull ∧ item.nullable = true := by
  obtain ⟨column, shape, table, rfl, kind⟩ := lenient
  obtain ⟨f₀, rfl, serves⟩ := grounded.meets known declared resolves
  cases serves with
  | reference _ classified _ =>
    obtain ⟨item, nonNull, type, required⟩ := FieldShape.classify_list classified kind
    exact ⟨item, nonNull, type, by rw [TypeExpr.nullable, required]; rfl⟩

-- What a declared field leaves waiting below it: nothing, or errors for elements of a list that may
-- be null.
inductive Leaves (here : Path) (type : TypeExpr) (marks : List (Path × Option ResponseError)) :
    Except ResponseError (Option Outcome) → Prop where
  | nothing {result : Except ResponseError (Option Outcome)} : Clean here marks →
      Leaves here type marks result
  | errors {item : TypeExpr} {nonNull : Bool} {os : List Outcome} : type = .list item nonNull →
      item.nullable = true → Waiting here 0 os.length marks →
      Leaves here type marks (.ok (some (.list os)))

theorem Declared.leaves {x : Execution σ} (grounded : x.schema.Grounded) {type : TypeDef}
    {f : FieldDef} {here : Path} {loc : Location} {arguments : Arguments} {parent : Outcome}
    {r : Run σ} {ran : Except ResponseError (Option Outcome) × Run σ}
    (known : x.schema.catalog.type? type.name = some type)
    (field : type.field? f.name = some f)
    (declared : Declared x type.name f.name here loc arguments parent r ran)
    (distinct : Distinct r.marks) (clean : Clean here r.marks) :
    Distinct ran.2.marks ∧ (∀ q, ¬ Below here q → markAt ran.2.marks q = markAt r.marks q) ∧
      Leaves here f.type ran.2.marks ran.1 := by
  cases declared with
  | refused _ steady _ =>
    rw [steady.marks]
    exact ⟨distinct, fun _ _ => rfl, .nothing (steady.marks ▸ clean)⟩
  | unserved _ steady =>
    rw [steady.marks]
    exact ⟨distinct, fun _ _ => rfl, .nothing (steady.marks ▸ clean)⟩
  | @resolved r' r'' resolver result _ served steady _ resolved =>
    refine ⟨resolved.distinct (steady.marks ▸ distinct), fun q outside => ?_, ?_⟩
    · rcases resolved.marks q with same | ⟨j, _, rfl, _⟩
      · exact same.trans (congrArg (markAt · q) steady.marks)
      · exact absurd (Below.snoc here _) outside
    · have hands (q : Path) (e : ResponseError) (below : Below here q)
          (marked : markAt r''.marks q = some (some e)) :
          ∃ j, q = here ++ [.index j] ∧ Hands resolver result j := by
        rcases resolved.marks q with same | ⟨j, _, place, there, allowed⟩
        · rw [same, steady.marks] at marked
          exact absurd marked (clean q e below)
        · exact ⟨j, place, (allowed e (Option.some.inj (there.symm.trans marked))).2⟩
      by_cases tidy : Clean here r''.marks
      · exact .nothing tidy
      · simp only [Clean, not_forall, not_not] at tidy
        obtain ⟨q, e, below, marked⟩ := tidy
        obtain ⟨_, _, lenient, os, rfl, _⟩ := hands q e below marked
        obtain ⟨item, nonNull, listed, nullable⟩ := grounded.lenient known field served lenient
        refine .errors listed nullable fun q e below marked => ?_
        obtain ⟨j, place, _, os', same, under⟩ := hands q e below marked
        cases same
        exact ⟨j, Nat.zero_le j, by omega, place⟩

-- What becomes of all that waits below a field: each error is found, and nothing is left.
structure Settled (here : Path) (r : Run σ) (w : Watch σ α) : Prop where
  delivered : Delivered (handedOn here r.marks) w.seen
  distributes : ∀ i ∈ w.seen, Distributes i
  distinct : Distinct w.run.marks
  outside : ∀ q, ¬ Below here q → markAt w.run.marks q = markAt r.marks q
  clean : Clean here w.run.marks

namespace Settled

variable {here : Path} {r : Run σ}

theorem ofTidy {w : Watch σ α} (tidy : Tidy here r w) (distinct : Distinct r.marks)
    (clean : Clean here r.marks) : Settled here r w := by
  refine ⟨?_, tidy.distributes, tidy.distinct, tidy.outside, tidy.clean⟩
  rw [handedOn_clean distinct clean]
  exact Visited.delivered_nil tidy.plain

theorem ofVisits {count : Nat} {w : Watch σ α} {visits : List (Visit × List Invocation)}
    (visited : Visits here 0 count r w visits) (distinct : Distinct r.marks)
    (waiting : Waiting here 0 count r.marks) : Settled here r w := by
  refine ⟨visited.delivered distinct waiting, fun i member => ?_, visited.distinct, visited.outside,
    visited.clean⟩
  rw [visited.seen] at member
  obtain ⟨v, found, rfl⟩ := List.mem_map.mp member
  exact visited.distributes v found

theorem map {β : Type} {x : Watched σ α} (f : α → β) (settled : Settled here r (x r)) :
    Settled here r ((f <$> x) r) := by
  obtain ⟨delivered, distributes, distinct, outside, clean⟩ := settled
  obtain ⟨run, seen⟩ := Watched.map_record f x r
  refine ⟨?_, ?_, ?_, ?_, ?_⟩
  · rwa [seen]
  · rwa [seen]
  · rwa [run]
  · rwa [run]
  · rwa [run]

-- Either nothing waits below the field, or its elements are reached one after another.
theorem ofLeaves {c : Catalog} {object : Watched.ObjectData σ}
    (objects : Objects Tidies (fun _ t _ => c.type? t.name = some t) object) (loc : Location)
    {type : TypeExpr} {o : Option Outcome} (leaves : Leaves here type r.marks (.ok o))
    (distinct : Distinct r.marks) : Settled here r (Watched.outcome c object loc type here o r) := by
  have inside (type : TypeExpr) (p : Path) (o : Option Outcome) (r : Run σ) :
      Tidies _ p r (Watched.outcome c object loc type p o r) :=
    Tidy.steps.ofOutcome (fun _ _ _ _ _ _ _ ok => ok) objects loc type p o r fun found _ =>
      fits_of_known (fun _ _ _ found => Catalog.type?_name found) type found
  cases leaves with
  | nothing clean => exact ofTidy (inside type here o r distinct clean) distinct clean
  | @errors item nonNull os listed nullable waiting =>
    subst listed
    obtain ⟨visits, visited⟩ := Visits.ofElements (p := here)
      (fun r q o => inside item q (some o) r) os 0 r distinct waiting
    rw [← nullable] at visited
    exact (ofVisits visited distinct waiting).map (some ∘ Datum.list)

end Settled

namespace Tidy

theorem field (p : Path) (key : String) {r r' : Run σ} {v : Visit} {w : Watch σ (Option Datum)}
    (unmarked : v.mark = none) (handed : v.handed = handedOn (p ++ [.field key]) r'.marks)
    (settled : Settled (p ++ [.field key]) r' w)
    (outside : ∀ q, ¬ Below (p ++ [.field key]) q → markAt r'.marks q = markAt r.marks q)
    (clean : Clean p r.marks) : Tidy p r (Watched.close v w) := by
  obtain ⟨v', closed⟩ := Watched.close_closed v w
  refine ⟨closed.marks ▸ settled.distinct, fun q outer => ?_, fun q e below => ?_, ?_, ?_⟩
  · have outer' : ¬ Below (p ++ [.field key]) q := fun inner => outer ((Below.snoc p _).trans inner)
    rw [closed.marks, settled.outside q outer', outside q outer']
  · rw [closed.marks]
    by_cases inner : Below (p ++ [.field key]) q
    · exact settled.clean q e inner
    · rw [settled.outside q inner, outside q inner]
      exact clean q e below
  · intro u within member e
    rw [closed.seen] at member
    cases List.mem_singleton.mp member
    rw [closed.mark, unmarked]
    exact fun absurd => nomatch absurd
  · intro i member
    rw [closed.seen] at member
    rw [List.mem_singleton.mp member]
    refine .position ?_ (fun e marked => ?_) settled.distributes
    · rw [closed.handed, handed]
      exact settled.delivered
    · rw [closed.mark, unmarked] at marked
      cases marked

theorem invocation {x : Execution σ} (grounded : x.schema.Grounded) {type : TypeDef}
    {parent : Outcome} {p : Path} {key : String} {loc : Location} {object : Watched.ObjectData σ}
    {f : FieldDef} {arguments : Arguments} {r : Run σ}
    (known : x.schema.catalog.type? type.name = some type) (declared : type.field? f.name = some f)
    (objects : Objects Tidies (fun _ t _ => x.schema.catalog.type? t.name = some t) object) :
    Tidies _ p r
      (x.watchInvocation type parent (p ++ [.field key]) loc object f arguments r) := by
  intro distinct clean
  let here := p ++ [Segment.field key]
  obtain ⟨distinct', outside, leaves⟩ := (x.declaredField_declared type.name f.name here loc
    arguments parent r).leaves grounded known declared distinct (clean.inner (Below.snoc p _))
  unfold Execution.watchInvocation
  split
  · rename_i o r' ran
    rw [ran] at distinct' outside leaves
    exact field p key rfl rfl (.ofLeaves objects loc leaves distinct') outside clean
  · rename_i e r' ran
    rw [ran] at distinct' outside leaves
    cases leaves with
    | nothing clean' =>
      refine field p key rfl ?_ (.ofTidy (.idle distinct' clean' rfl rfl) distinct' clean') outside
        clean
      exact (handedOn_clean distinct' clean').symm

theorem description (x : Execution σ) (p : Path) (head : FieldHead) (f : FieldDef)
    (children : List Node) (r : Run σ) :
    Tidies _ p r (x.watchDescription p head f children r) := by
  intro distinct clean
  have aside := Asides.enterDescription x p head f children r
  obtain ⟨run, stopped, left, seen⟩ := x.watchDescription_record p head f children r
  refine ⟨?_, fun q outer => ?_, fun q e below marked => ?_, ?_, ?_⟩
  · rw [run]
    exact aside.distinct distinct
  · rw [run]
    exact (aside.marks q).resolve_right fun gone => outer gone.1
  · rw [run] at marked
    rcases aside.marks q with same | ⟨_, gone⟩
    · exact clean q e below (same ▸ marked)
    · rw [gone] at marked
      cases marked
  · intro v inside member
    rw [seen] at member
    cases List.mem_singleton.mp member
  · intro i member
    rw [seen] at member
    rw [List.mem_singleton.mp member]
    exact .description

end Tidy

theorem delivery_law {x : Execution σ} (grounded : x.schema.Grounded) :
    Law x Tidies fun _ t _ => x.schema.catalog.type? t.name = some t where
  toSteps := Tidy.steps
  lasting _ _ _ _ _ _ _ ok := ok
  invocation _ _ _ _ _ _ _ _ _ ok declared objects _ :=
    Tidy.invocation grounded ok declared objects
  description _ _ p head f children r _ _ := Tidy.description x p head f children r

end RowGraph
