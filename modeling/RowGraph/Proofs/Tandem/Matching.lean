import RowGraph.Execution.Request
import RowGraph.Proofs.Tandem.Requests
/-!
Documents with the same selections. Two documents have the same parts, fragments included, while the
arguments of fields and the directives go together in some way that is not looked at here. Main
statements: selections unfold into trees whose parts go together, the same is left of them, and they
are executed alike if the fields are.
-/

namespace RowGraph

variable {σ σ' : Type}

-- How the parts of two documents go together, the fields by the type that they are selected from.
structure Matching where
  before : Query
  after : Query
  heads : Option TypeDef → FieldHead → FieldHead → Prop
  calls : List DirectiveCall → List DirectiveCall → Prop
  -- Fragments that may be met inside the description of the schema.
  aside : String → Prop

mutual

inductive Selection.Matches (s : Schema) (k : Matching) : Option TypeDef → Selection → Selection → Prop where
  | field {on : Option TypeDef} {head head' : FieldHead} {brace brace' : Location}
      {selections selections' : List Selection} : k.heads on head head' →
      Selection.AllMatch s k (s.inside on head.name) selections selections' →
      Matches s k on (.field head brace selections) (.field head' brace' selections')
  | spread {on : Option TypeDef} {name : String} {directives directives' : List DirectiveCall}
      {loc loc' : Location} : k.calls directives directives' →
      (∀ f, k.before.fragment? name = some f → on = none → Schema.describes f.condition = true →
        k.aside name) →
      Matches s k on (.spread name directives loc) (.spread name directives' loc')
  | inline {on : Option TypeDef} {condition : Option String}
      {directives directives' : List DirectiveCall} {loc loc' brace brace' : Location}
      {selections selections' : List Selection} : k.calls directives directives' →
      Selection.AllMatch s k (s.under on condition) selections selections' →
      Matches s k on (.inline condition directives loc brace selections)
        (.inline condition directives' loc' brace' selections')

inductive Selection.AllMatch (s : Schema) (k : Matching) :
    Option TypeDef → List Selection → List Selection → Prop where
  | nil {on : Option TypeDef} : AllMatch s k on [] []
  | cons {on : Option TypeDef} {sel sel' : Selection} {rest rest' : List Selection} :
      Selection.Matches s k on sel sel' → AllMatch s k on rest rest' →
      AllMatch s k on (sel :: rest) (sel' :: rest')

end

structure FragmentDef.Matches (s : Schema) (k : Matching) (f f' : FragmentDef) : Prop where
  name : f'.name = f.name
  condition : f'.condition = f.condition
  selections : Selection.AllMatch s k (s.catalog.type? f.condition) f.selections f'.selections
  aside : k.aside f.name → Selection.AllMatch s k none f.selections f'.selections

-- The fragments of both documents.
def Matching.Fragments (s : Schema) (k : Matching) : Prop :=
  List.Forall₂ (FragmentDef.Matches s k) k.before.fragments k.after.fragments

mutual

inductive Node.Matches (s : Schema) (k : Matching) : Option TypeDef → Node → Node → Prop where
  | field {on : Option TypeDef} {head head' : FieldHead} {children children' : List Node} :
      k.heads on head head' → Node.AllMatch s k (s.inside on head.name) children children' →
      Matches s k on (.field head children) (.field head' children')
  | group {on : Option TypeDef} {condition : Option String}
      {directives directives' : List DirectiveCall} {children children' : List Node} :
      k.calls directives directives' → Node.AllMatch s k (s.under on condition) children children' →
      Matches s k on (.group condition directives children) (.group condition directives' children')

inductive Node.AllMatch (s : Schema) (k : Matching) : Option TypeDef → List Node → List Node → Prop where
  | nil {on : Option TypeDef} : AllMatch s k on [] []
  | cons {on : Option TypeDef} {n n' : Node} {rest rest' : List Node} :
      Node.Matches s k on n n' → AllMatch s k on rest rest' → AllMatch s k on (n :: rest) (n' :: rest')

end

theorem mapM_agree {ε ε' α α' β β' : Type} {E : ε → ε' → Prop} {R : α → α' → Prop} {V : β → β' → Prop}
    {f : α → Except ε β} {f' : α' → Except ε' β'} {as : List α} {as' : List α'}
    (each : List.Forall₂ R as as') (one : ∀ a a', R a a' → Agree E V (f a) (f' a')) :
    Agree E (List.Forall₂ V) (as.mapM f) (as'.mapM f') := by
  induction each with
  | nil => exact .ok .nil
  | cons same _ ih =>
    rw [List.mapM_cons, List.mapM_cons]
    exact (one _ _ same).bind fun b b' first => ih.bind fun bs bs' more => .ok (.cons first more)

variable {s : Schema} {k : Matching}

theorem Selection.AllMatch.isEmpty {on : Option TypeDef} {all all' : List Selection}
    (same : Selection.AllMatch s k on all all') : all'.isEmpty = all.isEmpty := by
  cases same with
  | nil => rfl
  | cons _ _ => rfl

theorem Selection.AllMatch.forall₂ {on : Option TypeDef} {all all' : List Selection}
    (same : Selection.AllMatch s k on all all') :
    List.Forall₂ (Selection.Matches s k on) all all' := by
  induction all generalizing all' with
  | nil => cases same; exact .nil
  | cons sel rest ih => cases same with | cons first more => exact .cons first (ih more)

theorem Node.AllMatch.ofForall₂ {on : Option TypeDef} {nodes nodes' : List Node}
    (each : List.Forall₂ (Node.Matches s k on) nodes nodes') : Node.AllMatch s k on nodes nodes' := by
  induction each with
  | nil => exact .nil
  | cons first _ ih => exact .cons first ih

-- A fragment is written out for the type of its condition, in the description for nothing.
theorem FragmentDef.Matches.spread {f f' : FragmentDef} (same : FragmentDef.Matches s k f f')
    {on : Option TypeDef} (aside : on = none → Schema.describes f.condition = true → k.aside f.name) :
    Selection.AllMatch s k (s.under on (some f.condition)) f.selections f'.selections := by
  unfold Schema.under
  dsimp only
  split
  · rename_i nowhere
    simp only [Bool.and_eq_true, Option.isNone_iff_eq_none] at nowhere
    exact same.aside (aside nowhere.1 nowhere.2)
  · exact same.selections

namespace Matching

theorem ofSelection_agree (fragments : k.Fragments s)
    {nest nest' : Location → List Selection → Except Location (List Node)}
    (inside : ∀ {on brace brace' all all'}, Selection.AllMatch s k on all all' →
      Agree (fun _ _ => True) (Node.AllMatch s k on) (nest brace all) (nest' brace' all'))
    {on : Option TypeDef} {sel sel' : Selection} (same : Selection.Matches s k on sel sel') :
    Agree (fun _ _ => True) (Node.Matches s k on) (Node.ofSelection k.before nest sel)
      (Node.ofSelection k.after nest' sel') := by
  cases same with
  | field heads all =>
    unfold Node.ofSelection
    dsimp only
    rw [all.isEmpty]
    split
    · exact .ok (.field heads .nil)
    · exact (inside all).map fun _ _ => .field heads
  | @spread _ name directives directives' loc loc' calls aside =>
    have found : Option.Rel (FragmentDef.Matches s k) (k.before.fragment? name) (k.after.fragment? name) :=
      find?_forall₂ fragments fun f f' same => by rw [same.name]
    have named (f : FragmentDef) (known : k.before.fragment? name = some f) : f.name = name := by
      simpa using List.find?_some known
    unfold Node.ofSelection
    dsimp only
    generalize asked : k.before.fragment? name = f at found ⊢
    generalize k.after.fragment? name = f' at found ⊢
    cases found with
    | none => exact .ok (.group calls .nil)
    | @some f f' known =>
      dsimp only
      rw [known.condition]
      refine (inside (known.spread fun nowhere describing => ?_)).map fun _ _ => .group calls
      rw [named f asked]
      exact aside f asked nowhere describing
  | inline calls all =>
    unfold Node.ofSelection
    exact (inside all).map fun _ _ => .group calls

theorem unfold_agree (fragments : k.Fragments s) (levels : Nat) {on : Option TypeDef}
    {brace brace' : Location} {all all' : List Selection} (same : Selection.AllMatch s k on all all') :
    Agree (fun _ _ => True) (Node.AllMatch s k on) (Node.unfold k.before levels brace all)
      (Node.unfold k.after levels brace' all') := by
  induction levels generalizing on brace brace' all all' with
  | zero => exact .error trivial
  | succ levels ih =>
    unfold Node.unfold
    exact (mapM_agree same.forall₂ fun sel sel' one => k.ofSelection_agree fragments ih one).imp
      fun _ _ => .ofForall₂

end Matching

-- The same selections are skipped.
structure Matching.Skips (k : Matching) (values values' : List (String × Datum)) : Prop where
  directives : ∀ on head head', k.heads on head head' → k.calls head.directives head'.directives
  same : ∀ ds ds', k.calls ds ds' → Node.isSkipped values' ds' = Node.isSkipped values ds

mutual

theorem Node.Matches.prune {values values' : List (String × Datum)} (skips : k.Skips values values') :
    ∀ {on : Option TypeDef} {n n' : Node}, Node.Matches s k on n n' →
    Node.Matches s k on (n.prune values) (n'.prune values')
  | _, _, _, .field heads inside => by
    unfold Node.prune
    exact .field heads (Node.AllMatch.pruneAll skips inside)
  | _, _, _, .group calls inside => by
    unfold Node.prune
    exact .group calls (Node.AllMatch.pruneAll skips inside)

theorem Node.AllMatch.pruneAll {values values' : List (String × Datum)} (skips : k.Skips values values') :
    ∀ {on : Option TypeDef} {nodes nodes' : List Node}, Node.AllMatch s k on nodes nodes' →
    Node.AllMatch s k on (Node.pruneAll values nodes) (Node.pruneAll values' nodes')
  | _, _, _, .nil => by
    unfold Node.pruneAll
    exact .nil
  | _, _, _, @Node.AllMatch.cons _ _ _ n n' _ _ first more => by
    have calls : k.calls n.directives n'.directives := by
      cases first with
      | field heads _ => exact skips.directives _ _ _ heads
      | group calls _ => exact calls
    unfold Node.pruneAll
    rw [skips.same _ _ calls]
    split
    · exact Node.AllMatch.pruneAll skips more
    · exact .cons (Node.Matches.prune skips first) (Node.AllMatch.pruneAll skips more)

end

-- A condition is looked up among the values that came with the request.
def Node.givenValue (values : List (String × Datum)) (name : String) : Except Unit Datum :=
  match Members.get? name values with
  | some d => .ok d
  | none => .error ()

theorem Node.givenValue_agree {R : String → Datum → Datum → Prop} {values values' : List (String × Datum)}
    (alike : Members.Alike R values values') (name : String) :
    Agree (fun _ _ => True) (R name) (Node.givenValue values name) (Node.givenValue values' name) := by
  have found := alike.get? name
  unfold Node.givenValue
  generalize Members.get? name values = d at found ⊢
  generalize Members.get? name values' = d' at found ⊢
  cases found with
  | none => exact .error trivial
  | some same => exact .ok same

def Node.isTrue : Except Unit Datum → Bool
  | .ok (.bool b) => b
  | _ => false

theorem Node.condition?_eq (values : List (String × Datum)) (d : DirectiveCall) :
    Node.condition? values d = (d.arguments.find? fun a => a.name = "if").map fun a =>
      Node.isTrue (a.value.eval (Node.givenValue values)) := rfl

structure DirectiveCall.Agrees (values values' : List (String × Datum)) (d d' : DirectiveCall) : Prop where
  name : d'.name = d.name
  arguments : List.Forall₂ (fun a a' : Argument => a'.name = a.name ∧ Agree (fun _ _ => True) Eq
    (a.value.eval (Node.givenValue values)) (a'.value.eval (Node.givenValue values')))
    d.arguments d'.arguments

theorem DirectiveCall.Agrees.condition? {values values' : List (String × Datum)} {d d' : DirectiveCall}
    (agrees : DirectiveCall.Agrees values values' d d') :
    Node.condition? values' d' = Node.condition? values d := by
  have found : Option.Rel _ (d.arguments.find? fun a => a.name = "if")
      (d'.arguments.find? fun a => a.name = "if") :=
    find?_forall₂ agrees.arguments fun a a' same => by rw [same.1]
  rw [Node.condition?_eq, Node.condition?_eq]
  generalize d.arguments.find? _ = a at found ⊢
  generalize d'.arguments.find? _ = a' at found ⊢
  cases found with
  | none => rfl
  | @some a a' same =>
    obtain ⟨_, value⟩ := same
    rw [Option.map_some, Option.map_some]
    generalize a.value.eval _ = v at value ⊢
    generalize a'.value.eval _ = v' at value ⊢
    cases value with
    | error _ => rfl
    | ok same => rw [same]

theorem Node.isSkipped_agree {values values' : List (String × Datum)} {ds ds' : List DirectiveCall}
    (each : List.Forall₂ (DirectiveCall.Agrees values values') ds ds') :
    Node.isSkipped values' ds' = Node.isSkipped values ds := by
  unfold Node.isSkipped
  exact any_forall₂ each fun d d' one => by rw [one.name, one.condition?]

-- Fields that go together are executed alike.
def Matching.Executes (k : Matching) (exact : Prop) (x : Execution σ) (x' : Execution σ') : Prop :=
  ∀ on head head', k.heads on head head' →
    ∃ varies, x.schema.Admits on head.name varies ∧ FieldHead.Alike exact x x' varies head head'

section

variable {exact : Prop} {x : Execution σ} {x' : Execution σ'}

mutual

theorem Node.Matches.alike (executes : k.Executes exact x x') : ∀ {on : Option TypeDef} {n n' : Node},
    Node.Matches x.schema k on n n' → Node.Alike exact x x' on n n'
  | _, _, _, .field same inside => by
    obtain ⟨varies, admits, alike⟩ := executes _ _ _ same
    exact .field admits alike (Node.AllMatch.alike executes inside)
  | _, _, _, .group _ inside => .group (Node.AllMatch.alike executes inside)

theorem Node.AllMatch.alike (executes : k.Executes exact x x') :
    ∀ {on : Option TypeDef} {nodes nodes' : List Node}, Node.AllMatch x.schema k on nodes nodes' →
    Node.AllAlike exact x x' on nodes nodes'
  | _, _, _, .nil => .nil
  | _, _, _, .cons first more =>
    .cons (Node.Matches.alike executes first) (Node.AllMatch.alike executes more)

end

end

namespace Request

theorem refused_told (exact : Prop) (message : String) :
    Refusal.Like exact (.errors [{ message }]) (.errors [{ message }]) :=
  .errors (.cons (.refl exact _) .nil)

-- Operations that go together have trees that do.
theorem measure_agree (fragments : k.Fragments s) {on : Option TypeDef} {o o' : OperationDef}
    (same : Selection.AllMatch s k on o.selections o'.selections) :
    Agree (Refusal.Like False) (fun m m' => (m.operation = o ∧ m'.operation = o') ∧
      Node.AllMatch s k on m.nodes m'.nodes) (measure k.before o) (measure k.after o') := by
  have unfolded : Agree _ _ (Node.ofOperation k.before o) (Node.ofOperation k.after o') :=
    k.unfold_agree fragments _ same
  unfold measure
  generalize Node.ofOperation k.before o = nodes at unfolded ⊢
  generalize Node.ofOperation k.after o' = nodes' at unfolded ⊢
  cases unfolded with
  | ok nodes => exact .ok ⟨⟨rfl, rfl⟩, nodes⟩
  | error _ => exact .error (.errors (.cons ⟨rfl, rfl, rfl, False.elim⟩ .nil))

theorem choose_agree {R : Measured → Measured → Prop} {exact : Prop}
    (named : ∀ m m', R m m' → m'.operation.name = m.operation.name) (wanted : Option String)
    {all all' : List Measured} (same : List.Forall₂ R all all') :
    Agree (Refusal.Like exact) R (choose wanted all) (choose wanted all') := by
  unfold choose
  cases wanted with
  | some name =>
    have found : Option.Rel R (all.find? fun m => m.operation.name = some name)
        (all'.find? fun m => m.operation.name = some name) :=
      find?_forall₂ same fun m m' one => by rw [named m m' one]
    dsimp only
    generalize all.find? _ = m at found ⊢
    generalize all'.find? _ = m' at found ⊢
    cases found with
    | none => exact .error (refused_told exact _)
    | some one => exact .ok one
  | none =>
    cases same with
    | nil => exact .error (refused_told exact _)
    | cons first more =>
      cases more with
      | nil => exact .ok first
      | cons _ _ => exact .error (refused_told exact _)

end Request

-- What a variable stands for, if its values and its defaults go together.
theorem Execution.variableValue_agree {exact : Prop} {x : Execution σ} {x' : Execution σ'}
    {R : String → Datum → Datum → Prop} (refl : ∀ name d, R name d d)
    (declared : List.Forall₂ (fun v v' => v'.name = v.name ∧ v'.type = v.type ∧
      Option.Rel (R v.name) v.fallback v'.fallback) x.declared x'.declared)
    (given : Members.Alike R x.given x'.given) {loc loc' : Location} (place : exact → loc' = loc)
    (name : String) :
    Agree (ResponseError.Like exact) (R name) (x.variableValue loc name) (x'.variableValue loc' name) := by
  have undefined : ResponseError.Like exact
      { message := "Variable " ++ name ++ " is not defined.", locations := [loc] }
      { message := "Variable " ++ name ++ " is not defined.", locations := [loc'] } :=
    ⟨rfl, rfl, rfl, fun same => congrArg (fun loc => [loc]) (place same)⟩
  have found : Option.Rel _ (x.declared.find? fun v => v.name = name)
      (x'.declared.find? fun v => v.name = name) :=
    find?_forall₂ declared fun v v' one => by rw [one.1]
  have value := given.get? name
  unfold Execution.variableValue
  generalize known : x.declared.find? (fun v => v.name = name) = v at found ⊢
  generalize x'.declared.find? _ = v' at found ⊢
  cases found with
  | none => exact .error undefined
  | @some v v' one =>
    have named : v.name = name := by simpa using List.find?_some known
    have stands : Option.Rel (R name) (Members.get? name x.given <|> v.fallback)
        (Members.get? name x'.given <|> v'.fallback) := by
      generalize Members.get? name x.given = d at value ⊢
      generalize Members.get? name x'.given = d' at value ⊢
      cases value with
      | none => exact named ▸ one.2.2
      | some same => exact .some same
    dsimp only
    generalize (Members.get? name x.given <|> v.fallback) = d at stands ⊢
    generalize (Members.get? name x'.given <|> v'.fallback) = d' at stands ⊢
    cases stands with
    | some same => exact .ok same
    | none =>
      dsimp only
      rw [one.2.1]
      split
      · exact .ok (refl name .null)
      · exact .error undefined

end RowGraph
