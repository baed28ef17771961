import RowGraph.Proofs.Reference.Mirror
import RowGraph.Proofs.Response.Description
/-!
A look at the description of the schema, by itself. It reads marks where it has lists of its own, below
the keys that are asked of it, and leaves none. Main statement: two operations that read their
arguments alike look at it alike, as long as no mark waits below such a key.
-/

namespace RowGraph

variable {σ : Type}

namespace Node

mutual

-- The arguments that are written in a selection, at any depth.
def arguments : Node → List Argument
  | .field head children => head.arguments ++ argumentsAll children
  | .group _ _ children => argumentsAll children

def argumentsAll : List Node → List Argument
  | [] => []
  | n :: rest => arguments n ++ argumentsAll rest

end

end Node

-- Two operations on one schema and one store that read some arguments alike.
structure Kin (x x' : Execution σ) (arguments : List Argument) : Prop where
  schema : x'.schema = x.schema
  backend : x'.backend = x.backend
  reads : ∀ a ∈ arguments, x'.argumentValue a = x.argumentValue a

namespace Kin

variable {x x' : Execution σ} {all some : List Argument} {head : FieldHead}

theorem refl (x : Execution σ) (all : List Argument) : Kin x x all := ⟨rfl, rfl, fun _ _ => rfl⟩

theorem mono (kin : Kin x x' all) (subset : some ⊆ all) : Kin x x' some :=
  ⟨kin.schema, kin.backend, fun a member => kin.reads a (subset member)⟩

theorem left (kin : Kin x x' (some ++ all)) : Kin x x' some :=
  kin.mono (List.subset_append_left _ _)

theorem right (kin : Kin x x' (all ++ some)) : Kin x x' some :=
  kin.mono (List.subset_append_right _ _)

theorem given (kin : Kin x x' all) : x'.givenArguments all = x.givenArguments all := by
  induction all with
  | nil => rfl
  | cons a rest ih =>
    unfold Execution.givenArguments
    rw [kin.reads a List.mem_cons_self, ih (kin.mono (List.subset_cons_self _ _))]

theorem arguments (kin : Kin x x' head.arguments) (f : FieldDef) :
    x'.arguments f head = x.arguments f head := by
  unfold Execution.arguments
  rw [kin.given]

theorem fittingArguments (kin : Kin x x' head.arguments) (known : List InputDef) :
    x'.fittingArguments head known = x.fittingArguments head known := by
  induction known with
  | nil => rfl
  | cons d rest ih =>
    unfold Execution.fittingArguments
    rw [ih]
    split
    · rfl
    · rename_i a found
      rw [kin.reads a (List.mem_of_find?_eq_some found)]

end Kin

namespace Mirrors

variable {needs : Path → Prop}

theorem fittingArguments (x : Execution σ) (head : FieldHead) (known : List InputDef) :
    Mirrors True needs (x.fittingArguments head known) (x.fittingArguments head known) := by
  induction known with
  | nil => exact pure _
  | cons d rest ih =>
    unfold Execution.fittingArguments
    split
    · exact ih
    · refine (lift _).bind fun value => ?_
      split
      · exact throw _
      · exact ih.bind fun more => pure _

theorem answered {part part' : Described → Path → Exec σ Datum} {path : Path}
    (inside : ∀ d here, Mirrors True (Below here) (part d here) (part' d here))
    (answer : Option Described.Answer) :
    Mirrors True (Below path) (Execution.answered part path answer)
      (Execution.answered part' path answer) := by
  cases answer with
  | none => exact pure _
  | some answer =>
    cases answer with
    | leaf d => exact pure _
    | part d => exact (inside d path).map some
    | leaves ds =>
      apply map
      exact elements (fun i => .snoc path (.index i)) false (fun _ _ => pure _) ds 0
    | parts ds =>
      apply map
      refine elements (fun i => .snoc path (.index i)) false (fun i d => ?_) ds 0
      refine (((inside d _).map some).relocated _).mono fun q below => ?_
      exact (Below.snoc path (.index i)).trans below

theorem question {x x' : Execution σ} {head : FieldHead} (kin : Kin x x' head.arguments)
    (d : Described) {path : Path}
    (below : ∀ q, Below (path ++ [.field head.key]) q → needs q)
    {part part' : Described → Path → Exec σ Datum}
    (inside : ∀ d here, Mirrors True (Below here) (part d here) (part' d here)) :
    Mirrors True needs (x.question d path head part) (x'.question d path head part') := by
  unfold Execution.question
  rw [kin.schema]
  simp only
  split
  · exact throw _
  · apply guard
    split
    · exact pure _
    · rw [kin.fittingArguments]
      refine (fittingArguments x head _).bind fun _ => ?_
      exact ((answered inside _).mono below).catching trivial _

mutual

theorem inquireOne {x x' : Execution σ} (d : Described) (path : Path) :
    ∀ (n : Node) {needs : Path → Prop}, Kin x x' n.arguments →
    (∀ l ∈ Node.shownBy d.typeName n, ∀ q, Below (path ++ [.field l.key]) q → needs q) →
    Mirrors True needs (x.inquireOne d path n) (x'.inquireOne d path n)
  | .group condition _ children, _, kin, below => by
    rw [Execution.inquireOne, Execution.inquireOne]
    unfold Node.shownBy at below
    split
    · rename_i applies
      rw [if_pos applies] at below
      exact inquire d path children kin below
    · exact pure _
  | .field head children, _, kin, below => by
    rw [Execution.inquireOne, Execution.inquireOne]
    split
    · exact pure _
    · have here := below (head, children) (by simp [Node.shownBy])
      refine (question kin.left d here fun part there => ?_).bind fun found => pure _
      refine (inquire part there children kin.right fun l _ q deeper => ?_).map _
      exact (Below.snoc there (.field l.key)).trans deeper

theorem inquire {x x' : Execution σ} (d : Described) (path : Path) :
    ∀ (nodes : List Node) {needs : Path → Prop}, Kin x x' (Node.argumentsAll nodes) →
    (∀ l ∈ Node.shown d.typeName nodes, ∀ q, Below (path ++ [.field l.key]) q → needs q) →
    Mirrors True needs (x.inquire d path nodes) (x'.inquire d path nodes)
  | [], _, _, _ => by
    rw [Execution.inquire, Execution.inquire]
    exact pure _
  | n :: rest, _, kin, below => by
    rw [Execution.inquire, Execution.inquire]
    unfold Node.shown at below
    refine (inquireOne d path n kin.left fun l member =>
      below l (List.mem_append_left _ member)).bind fun results => ?_
    exact (inquire d path rest kin.right fun l member =>
      below l (List.mem_append_right _ member)).bind fun more => pure _

end

end Mirrors

-- A field that leads to the description leads to what it is typed as.
theorem Described.enter_typeName {c : Catalog} {arguments : Arguments} {f : FieldDef} {d : Described}
    (entrance : f ∈ Description.entrances) (entered : enter c arguments f.name = some d) :
    d.typeName = f.type.name := by
  simp only [Description.entrances, List.mem_cons, List.not_mem_nil, or_false] at entrance
  rcases entrance with rfl | rfl
  · obtain rfl := Option.some.inj entered
    rfl
  · simp only [enter] at entered
    split at entered
    · rename_i absurd
      simp at absurd
    · split at entered
      · obtain ⟨t, _, rfl⟩ := Option.map_eq_some_iff.mp entered
        rfl
      · cases entered

theorem Execution.entrance?_mem {x : Execution σ} {type : TypeDef} {name : String} {f : FieldDef}
    (entered : x.entrance? type name = some f) : f ∈ Description.entrances ∧ f.name = name := by
  unfold entrance? Catalog.entrances at entered
  refine ⟨?_, by simpa using List.find?_some entered⟩
  have member := List.mem_of_find?_eq_some entered
  split at member
  · exact member
  · cases member

theorem Mirrors.enterDescription {x x' : Execution σ} {type : TypeDef} {head : FieldHead}
    {f : FieldDef} {children : List Node} (kin : Kin x x' (Node.field head children).arguments)
    (entered : x.entrance? type head.name = some f) {path : Path} {needs : Path → Prop}
    (below : ∀ l ∈ Node.shown f.type.name children, ∀ q, Below (path ++ [.field l.key]) q → needs q) :
    Mirrors True needs (x.enterDescription path head f children)
      (x'.enterDescription path head f children) := by
  unfold Execution.enterDescription
  rw [kin.schema, kin.left.fittingArguments]
  refine (fittingArguments x head _).bind fun arguments => ?_
  split
  · exact pure _
  · rename_i d entered'
    have same := Described.enter_typeName (Execution.entrance?_mem entered).1 entered'
    exact ((inquire d path children kin.right (same ▸ below)).map _).catching trivial _

end RowGraph
