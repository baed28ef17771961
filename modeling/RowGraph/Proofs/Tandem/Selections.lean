import RowGraph.Execution.Selections
import RowGraph.Proofs.Tandem.Resolve
/-!
Selections on two stores that answer alike. The two selection trees have the same fields; only where
ids are looked up may the arguments have other forms. Main statement: two executions stay alongside
each other through all selections, and their responses are alike.
-/

namespace RowGraph

variable {σ σ' : Type}

-- How an argument is read by two executions of one schema.
structure Argument.Alike (exact : Prop) (x : Execution σ) (x' : Execution σ')
    (varies : String → Datum → Datum → Prop) (a a' : Argument) : Prop where
  name : a'.name = a.name
  place : exact → a'.valueLoc = a.valueLoc
  value : Agree (ResponseError.Like exact) (varies a.name) (x.argumentValue a) (x'.argumentValue a')

structure FieldHead.Alike (exact : Prop) (x : Execution σ) (x' : Execution σ')
    (varies : String → Datum → Datum → Prop) (head head' : FieldHead) : Prop where
  name : head'.name = head.name
  key : head'.key = head.key
  place : exact → head'.loc = head.loc
  arguments : List.Forall₂ (Argument.Alike exact x x' varies) head.arguments head'.arguments

namespace Schema

def describes (type : String) : Bool := (Description.type? type).isSome

-- A field that leads to the description of the schema.
def enters (s : Schema) (t : TypeDef) (field : String) : Bool :=
  (s.catalog.entrances t).any fun f => f.name = field

-- The resolver of a field, if nothing else looks at the arguments of the field.
def site? (s : Schema) (on : Option TypeDef) (field : String) : Option Resolver :=
  on.bind fun t =>
    if s.enters t field || !((FieldMap.get? s.hooks t.name field).getD []).isEmpty then none
    else FieldMap.get? s.resolvers t.name field

-- The type of what is selected inside of a field, and of what is selected under a condition. Nothing
-- is said of the description, where a condition holds of describing types only.
def inside (s : Schema) (on : Option TypeDef) (field : String) : Option TypeDef :=
  on.bind fun t =>
    if s.enters t field then none
    else (t.field? field).bind fun f => s.catalog.type? f.type.name

def under (s : Schema) (on : Option TypeDef) (condition : Option String) : Option TypeDef :=
  match condition with
  | some name => if on.isNone && describes name then none else s.catalog.type? name
  | none => on

structure Sited (s : Schema) (t : TypeDef) (field : String) (r : Resolver) : Prop where
  own : s.enters t field = false
  unhooked : (FieldMap.get? s.hooks t.name field).getD [] = []
  resolver : FieldMap.get? s.resolvers t.name field = some r

-- A field whose resolver takes its arguments as they may be given instead, and no hook sees them so.
structure Takes (s : Schema) (t : TypeDef) (field : String) (varies : String → Datum → Datum → Prop) :
    Prop where
  own : s.enters t field = false
  resolver : ∃ r, FieldMap.get? s.resolvers t.name field = some r ∧
    ∀ name d d', varies name d d' → Resolver.Varies (some r) name d d'
  judged : ∀ h ∈ (FieldMap.get? s.hooks t.name field).getD [], ∀ as as' : Arguments,
    Members.Alike varies as as' → h.refusal? as' = h.refusal? as

-- How the arguments of a field may differ: not at all, or as the field takes them.
structure Admits (s : Schema) (on : Option TypeDef) (field : String)
    (varies : String → Datum → Datum → Prop) : Prop where
  refl : ∀ name d, varies name d d
  taken : (∀ name d d', varies name d d' → d' = d) ∨ ∃ t, on = some t ∧ s.Takes t field varies

theorem site?_sited {s : Schema} {on : Option TypeDef} {field : String} {r : Resolver}
    (there : s.site? on field = some r) : ∃ t, on = some t ∧ s.Sited t field r := by
  obtain ⟨t, same, there⟩ := Option.bind_eq_some_iff.mp there
  by_cases aside : (s.enters t field ||
      !((FieldMap.get? s.hooks t.name field).getD []).isEmpty) = true
  · rw [if_pos aside] at there
    cases there
  · rw [if_neg aside] at there
    simp only [Bool.not_eq_true, Bool.or_eq_false_iff, Bool.not_eq_false', List.isEmpty_iff] at aside
    exact ⟨t, same, aside.1, aside.2, there⟩

theorem admits_site (s : Schema) (on : Option TypeDef) (field : String) :
    s.Admits on field (Resolver.Varies (s.site? on field)) := by
  refine ⟨fun _ _ => .inl rfl, ?_⟩
  cases there : s.site? on field with
  | none =>
    refine .inl fun name d d' varies => varies.resolve_right ?_
    rintro ⟨_, absurd, _⟩
    cases absurd
  | some r =>
    obtain ⟨t, same, sited⟩ := site?_sited there
    refine .inr ⟨t, same, sited.own, ⟨r, sited.resolver, fun _ _ _ => id⟩, ?_⟩
    rw [sited.unhooked]
    intro h absurd
    cases absurd

theorem Admits.equal {s : Schema} {field : String} {varies : String → Datum → Datum → Prop}
    (admits : s.Admits none field varies) : ∀ name d d', varies name d d' → d' = d := by
  rcases admits.taken with equal | ⟨_, absurd, _⟩
  · exact equal
  · cases absurd

end Schema

mutual

-- The type is that of the object that is selected from, as far as it matters.
inductive Node.Alike (exact : Prop) (x : Execution σ) (x' : Execution σ') :
    Option TypeDef → Node → Node → Prop where
  | field {on : Option TypeDef} {head head' : FieldHead} {varies : String → Datum → Datum → Prop}
      {children children' : List Node} : x.schema.Admits on head.name varies →
      FieldHead.Alike exact x x' varies head head' →
      Node.AllAlike exact x x' (x.schema.inside on head.name) children children' →
      Alike exact x x' on (.field head children) (.field head' children')
  | group {on : Option TypeDef} {condition : Option String}
      {directives directives' : List DirectiveCall} {children children' : List Node} :
      Node.AllAlike exact x x' (x.schema.under on condition) children children' →
      Alike exact x x' on (.group condition directives children)
        (.group condition directives' children')

inductive Node.AllAlike (exact : Prop) (x : Execution σ) (x' : Execution σ') :
    Option TypeDef → List Node → List Node → Prop where
  | nil {on : Option TypeDef} : AllAlike exact x x' on [] []
  | cons {on : Option TypeDef} {n n' : Node} {rest rest' : List Node} :
      Node.Alike exact x x' on n n' → AllAlike exact x x' on rest rest' →
      AllAlike exact x x' on (n :: rest) (n' :: rest')

end

theorem FieldHead.Alike.find {exact : Prop} {x : Execution σ} {x' : Execution σ'}
    {varies : String → Datum → Datum → Prop} {head head' : FieldHead}
    (alike : FieldHead.Alike exact x x' varies head head') (name : String) :
    Option.Rel (Argument.Alike exact x x' varies)
      (head.arguments.find? fun a => a.name = name) (head'.arguments.find? fun a => a.name = name) :=
  find?_forall₂ alike.arguments fun a a' same => by rw [same.name]

-- What was not written has the same default on both sides.
theorem Members.Alike.withDefaults {varies : String → Datum → Datum → Prop}
    (refl : ∀ name d, varies name d d) {as as' : Arguments} (alike : Members.Alike varies as as')
    (known : List InputDef) :
    Members.Alike varies (Execution.withDefaults known as) (Execution.withDefaults known as') := by
  have written (name : String) : as'.any (fun a => a.1 = name) = as.any fun a => a.1 = name :=
    any_forall₂ alike fun m m' same => by rw [same.1]
  unfold Execution.withDefaults
  simp only [written]
  exact List.rel_append alike (Members.Alike.refl refl _)

theorem Schema.under_described (s : Schema) (d : Described) {condition : Option String}
    (applied : Execution.applies d.typeName condition = true) : s.under none condition = none := by
  cases condition with
  | none => rfl
  | some name =>
    obtain rfl : name = d.typeName := by simpa [Execution.applies] using applied
    have describing : describes d.typeName = true := by cases d <;> rfl
    simp only [under, describing, Option.isNone_none, Bool.and_self, if_true]

theorem Schema.under_applied (s : Schema) {type : TypeDef}
    (known : s.catalog.type? type.name = some type) {on : Option TypeDef}
    (here : ∀ t, on = some t → t = type) {condition : Option String}
    (applied : Execution.applies type.name condition = true) :
    ∀ t, s.under on condition = some t → t = type := by
  cases condition with
  | none => exact here
  | some name =>
    obtain rfl : name = type.name := by simpa [Execution.applies] using applied
    intro t found
    unfold under at found
    dsimp only at found
    split at found
    · cases found
    · exact Option.some.inj (found.symm.trans known)

namespace Tandem

variable {exact : Prop} {x : Execution σ} {x' : Execution σ'}
  {t : Tandem x.schema x.backend x'.backend}

namespace Along

theorem arguments {varies : String → Datum → Datum → Prop} (refl : ∀ name d, varies name d d)
    {head head' : FieldHead} (alike : FieldHead.Alike exact x x' varies head head') (f : FieldDef) :
    t.Along exact (ResponseError.Like exact) (Members.Alike varies) (x.arguments f head)
      (x'.arguments f head') := by
  have given : Agree (ResponseError.Like exact) (Members.Alike varies)
      (x.givenArguments head.arguments) (x'.givenArguments head'.arguments) := by
    have arguments := alike.arguments
    generalize head.arguments = as at arguments ⊢
    generalize head'.arguments = as' at arguments ⊢
    induction arguments with
    | nil => exact .ok .nil
    | cons same _ ih =>
      refine same.value.bind fun d d' varies => ih.bind fun ds ds' more => ?_
      exact .ok (.cons ⟨same.name, varies⟩ more)
  exact (result given).bind (.refl refl) fun as as' same => pure (same.withDefaults refl f.arguments)

theorem fittingArguments {varies : String → Datum → Datum → Prop}
    (equal : ∀ name d d', varies name d d' → d' = d) {head head' : FieldHead}
    (alike : FieldHead.Alike exact x x' varies head head') (known : List InputDef) :
    t.Along exact (ResponseError.Like exact) Eq (x.fittingArguments head known)
      (x'.fittingArguments head' known) := by
  induction known with
  | nil => exact pure rfl
  | cons known rest ih =>
    unfold Execution.fittingArguments
    have found := FieldHead.Alike.find alike known.name
    generalize head.arguments.find? (fun a => a.name = known.name) = a at found ⊢
    generalize head'.arguments.find? (fun a => a.name = known.name) = a' at found ⊢
    cases found with
    | none => exact ih
    | @some a a' same =>
      have value : Agree (ResponseError.Like exact) Eq (x.argumentValue a) (x'.argumentValue a') :=
        same.value.imp fun _ _ varies => (equal _ _ _ varies).symm
      refine (result value).bind (fun _ => rfl) ?_
      rintro d _ rfl
      have later (u : PUnit) : t.Along exact (ResponseError.Like exact) Eq
          (x.fittingArguments head rest >>= fun ds => Pure.pure ((known.name, d) :: ds))
          (x'.fittingArguments head' rest >>= fun ds => Pure.pure ((known.name, d) :: ds)) := by
        refine ih.bind (fun _ => rfl) ?_
        rintro ds _ rfl
        exact pure rfl
      split
      · refine Along.bind (V := Eq) (throw ⟨rfl, rfl, rfl, fun same' => ?_⟩) (fun _ => rfl) fun u _ _ => later u
        exact congrArg (fun loc => [loc]) (same.place same')
      · exact later ⟨⟩

theorem answered {part : Described → Path → Exec σ Datum} {part' : Described → Path → Exec σ' Datum}
    (parts : ∀ d here, t.Along exact (ResponseError.Like exact) Eq (part d here) (part' d here))
    (path : Path) (answer : Option Described.Answer) :
    t.Along exact (ResponseError.Like exact) Eq (Execution.answered part path answer)
      (Execution.answered part' path answer) := by
  have some_same (d d' : Datum) (same : d = d') : some d = some d' := congrArg some same
  have listed (ds ds' : List Datum) (same : ds = ds') :
      (some ∘ Datum.list) ds = (some ∘ Datum.list) ds' := congrArg _ same
  cases answer with
  | none => exact pure rfl
  | some answer =>
    cases answer with
    | leaf d => exact pure rfl
    | part d => exact (parts d path).map (fun _ => rfl) some_same
    | leaves ds =>
      refine (elements false path (W := Eq) ?_ (List.forall₂_same.mpr fun _ _ => rfl) 0).map
        (fun _ => rfl) listed
      rintro here d _ rfl
      exact pure rfl
    | parts ds =>
      refine (elements false path (W := Eq) ?_ (List.forall₂_same.mpr fun _ _ => rfl) 0).map
        (fun _ => rfl) listed
      rintro here d _ rfl
      exact ((parts d here).map (fun _ => rfl) some_same).relocated here

theorem question {varies : String → Datum → Datum → Prop}
    (equal : ∀ name d d', varies name d d' → d' = d) {head head' : FieldHead}
    (same : x'.schema = x.schema) (alike : FieldHead.Alike exact x x' varies head head') (d : Described)
    (path : Path)
    {part : Described → Path → Exec σ Datum} {part' : Described → Path → Exec σ' Datum}
    (parts : ∀ d here, t.Along exact (ResponseError.Like exact) Eq (part d here) (part' d here)) :
    t.Along exact (ResponseError.Like exact) Eq (x.question d path head part)
      (x'.question d path head' part') := by
  have refused : ResponseError.Like exact (Execution.cannotQuery d.typeName head)
      (Execution.cannotQuery d.typeName head') := by
    unfold Execution.cannotQuery
    rw [alike.key]
    exact ⟨rfl, rfl, rfl, fun place => congrArg (fun loc => [loc]) (alike.place place)⟩
  unfold Execution.question
  rw [same, alike.name, alike.key]
  dsimp only
  cases (x.schema.catalog.type? d.typeName).bind fun t => x.schema.catalog.field? t head.name with
  | none => exact throw refused
  | some f =>
    refine guard (path ++ [Segment.field head.key]) f.type.nullable ?_
    cases Description.field? d.typeName head.name with
    | none => exact pure rfl
    | some known =>
      refine (fittingArguments equal alike known.arguments).bind (fun _ => rfl) fun _ _ _ => ?_
      exact (answered parts _ _).catching known.type.nullable

end Along

mutual

theorem Along.inquireOne (same : x'.schema = x.schema) (d : Described) (path : Path) :
    ∀ n n' : Node, Node.Alike exact x x' none n n' →
      t.Along exact (ResponseError.Like exact) Eq (x.inquireOne d path n) (x'.inquireOne d path n')
  | .group condition _ children, .group condition' _ children', alike => by
    cases alike with
    | group inside =>
      unfold Execution.inquireOne
      by_cases applied : Execution.applies d.typeName condition = true
      · rw [if_pos applied, if_pos applied]
        rw [x.schema.under_described d applied] at inside
        exact Along.inquire same d path children children' inside
      · rw [if_neg applied, if_neg applied]
        exact .pure rfl
  | .field head children, .field head' children', alike => by
    cases alike with
    | field admits heads inside =>
      unfold Execution.inquireOne
      rw [heads.name, heads.key]
      split
      · exact .pure rfl
      · refine (Along.question admits.equal same heads d path fun part here => ?_).bind (fun _ => rfl) ?_
        · refine (Along.inquire same part here children children' inside).map (fun _ => rfl) ?_
          exact fun _ _ equal => congrArg _ equal
        · rintro found _ rfl
          exact .pure rfl
  | .group _ _ _, .field _ _, alike => nomatch alike
  | .field _ _, .group _ _ _, alike => nomatch alike

theorem Along.inquire (same : x'.schema = x.schema) (d : Described) (path : Path) :
    ∀ nodes nodes' : List Node, Node.AllAlike exact x x' none nodes nodes' →
      t.Along exact (ResponseError.Like exact) Eq (x.inquire d path nodes) (x'.inquire d path nodes')
  | [], [], _ => by
    unfold Execution.inquire
    exact .pure rfl
  | n :: rest, n' :: rest', alike => by
    cases alike with
    | cons first more =>
      unfold Execution.inquire
      refine (Along.inquireOne same d path n n' first).bind (fun _ => rfl) ?_
      rintro results _ rfl
      refine (Along.inquire same d path rest rest' more).bind (fun _ => rfl) ?_
      rintro later _ rfl
      exact .pure rfl
  | [], _ :: _, alike => nomatch alike
  | _ :: _, [], alike => nomatch alike

end

namespace Along

theorem description {varies : String → Datum → Datum → Prop}
    (equal : ∀ name d d', varies name d d' → d' = d) {head head' : FieldHead}
    (same : x'.schema = x.schema) (alike : FieldHead.Alike exact x x' varies head head') (path : Path)
    (f : FieldDef) {children children' : List Node}
    (inside : Node.AllAlike exact x x' none children children') :
    t.Along exact (ResponseError.Like exact) Eq (x.enterDescription path head f children)
      (x'.enterDescription path head' f children') := by
  unfold Execution.enterDescription
  rw [same]
  refine (fittingArguments equal alike f.arguments).bind (fun _ => rfl) ?_
  rintro as _ rfl
  split
  · exact pure rfl
  · rename_i d _
    refine catching _ ((inquire same d path children children' inside).map (fun _ => rfl) ?_)
    exact fun _ _ equal => congrArg _ equal

-- Hooks are called with arguments that they do not tell apart.
theorem runHooks {as as' : Arguments} (type field : String) {loc loc' : Location}
    (place : exact → loc' = loc) (hooks : List Hook)
    (judged : ∀ h ∈ hooks, h.refusal? as' = h.refusal? as) :
    t.Along exact (ResponseError.Like exact) Eq (Execution.runHooks type field loc as hooks)
      (Execution.runHooks type field loc' as' hooks) := by
  induction hooks with
  | nil => exact pure rfl
  | cons h rest ih =>
    have called : t.Along (ε := ResponseError) exact (ResponseError.Like exact) Eq
        (modify fun r => { r with calls := r.calls ++ [⟨type, field, h.label⟩] } : Exec σ PUnit)
        (modify fun r => { r with calls := r.calls ++ [⟨type, field, h.label⟩] } : Exec σ' PUnit) := by
      refine ⟨fun _ lost => lost, fun r r' near => .inr ⟨.ok rfl, ?_⟩⟩
      exact { near with calls := congrArg (· ++ [(⟨type, field, h.label⟩ : HookCall)]) near.calls }
    unfold Execution.runHooks
    rw [judged h List.mem_cons_self]
    refine called.bind (fun _ => rfl) fun _ _ _ => ?_
    split
    · exact throw ⟨rfl, rfl, rfl, fun same => by rw [place same]⟩
    · exact ih fun h member => judged h (List.mem_cons_of_mem _ member)

-- The value of a field by its resolver.
theorem resolver (grounded : x.schema.Grounded) {type : TypeDef} {field : String} {f : FieldDef}
    (known : x.schema.catalog.type? type.name = some type) (declared : type.field? field = some f)
    {r : Resolver} (resolves : FieldMap.get? x.schema.resolvers type.name field = some r) (path : Path)
    {loc loc' : Location} (place : exact → loc' = loc) {as as' : Arguments}
    (alike : Arguments.Alike (some r) as as') {parent parent' : Outcome}
    (parents : Outcome.Like x.schema type.name parent parent') :
    t.Along exact GraphError.Like (Option.Rel (Outcome.Alike x.schema f.type))
      (x.resolver path loc as parent r) (x'.resolver path loc' as' parent' r) := by
  obtain ⟨f₀, rfl, serves⟩ := grounded.meets known declared resolves
  have equal {y : Except GraphError (Option Outcome)} {y' : Except GraphError (Option Outcome)}
      (same : y' = y) : t.Along exact GraphError.Like
        (Option.Rel (Outcome.Alike x.schema f₀.distinctArguments.type))
        (liftM y : Resolving σ (Option Outcome)) (liftM y' : Resolving σ' (Option Outcome)) := by
    rw [same]
    exact result (Agree.refl .same (Option.rel_refl (.same _)) _)
  obtain ⟨owner, named⟩ : ∃ owner, owner = type.name := ⟨_, rfl⟩
  rw [← named] at serves
  cases serves with
  | root classified _ => exact root classified path place alike
  | column _ _ _ => exact equal (grounded.column_alike resolves parents)
  | shown _ _ _ => exact equal (grounded.column_alike resolves parents)
  | reference member classified _ =>
    have own : f₀.distinctArguments.name = field := by simpa using List.find?_some declared
    obtain rfl : f₀.name = field := own
    rw [named] at member
    exact reference resolves classified path place (parents.parents (Document.table_plain member))
  | value member inside _ =>
    refine (result (grounded.value_alike known declared resolves parents)).imp fun o o' same => ?_
    have plain := grounded.entry_plain member inside
    change Option.Rel (Outcome.Alike x.schema f₀.type) o o'
    cases same with
    | none => exact .none
    | some like => exact .some (.ofLike plain like)
  | mutation _ _ =>
    refine (mutation alike).imp fun o o' same => ?_
    rw [same]
    exact Option.rel_refl (.same _) o'

theorem declaredField (grounded : x.schema.Grounded) (same : x'.schema = x.schema) {type : TypeDef}
    {f : FieldDef} (known : x.schema.catalog.type? type.name = some type)
    (declared : type.field? f.name = some f) {on : Option TypeDef}
    (here : ∀ t, on = some t → t = type) (path : Path) {loc loc' : Location}
    (place : exact → loc' = loc) {varies : String → Datum → Datum → Prop}
    (admits : x.schema.Admits on f.name varies) {as as' : Arguments}
    (alike : Members.Alike varies as as')
    {parent parent' : Outcome} (parents : Outcome.Like x.schema type.name parent parent') :
    t.Along exact (ResponseError.Like exact) (Option.Rel (Outcome.Alike x.schema f.type))
      (x.declaredField type.name f.name path loc as parent)
      (x'.declaredField type.name f.name path loc' as' parent') := by
  have taken : as' = as ∨ x.schema.Takes type f.name varies := by
    rcases admits.taken with equal | ⟨t, same, takes⟩
    · exact .inl (alike.eq equal)
    · exact .inr (here t same ▸ takes)
  have judged : ∀ h ∈ (FieldMap.get? x.schema.hooks type.name f.name).getD [],
      h.refusal? as' = h.refusal? as := by
    rcases taken with rfl | takes
    · exact fun _ _ => rfl
    · exact fun h member => takes.judged h member as as' alike
  unfold Execution.declaredField
  rw [same]
  refine (runHooks type.name f.name place _ judged).bind (fun _ => rfl) fun _ _ _ => ?_
  cases resolves : FieldMap.get? x.schema.resolvers type.name f.name with
  | none => exact pure .none
  | some r =>
    have given : Arguments.Alike (some r) as as' := by
      rcases taken with rfl | takes
      · exact .refl _ _
      · obtain ⟨r', there, varies⟩ := takes.resolver
        obtain rfl := Option.some.inj (there.symm.trans resolves)
        exact alike.imp fun m m' same => ⟨same.1, varies _ _ _ same.2⟩
    exact (resolver grounded known declared resolves path place given parents).adapt
      fun _ _ like => like.raisedAt place

theorem enumValue {name : String} (t₀ : TypeDef) (values : List String) (path : Path)
    {loc loc' : Location} (place : exact → loc' = loc) {o o' : Outcome}
    (like : Outcome.Like x.schema name o o') :
    t.Along exact (ResponseError.Like exact) Eq (Complete.enumValue t₀ values path loc o)
      (Complete.enumValue t₀ values path loc' o') := by
  unfold Complete.enumValue
  cases like with
  | same =>
    split
    · split
      · exact pure rfl
      · exact fail path place _
    · split
      · exact pure rfl
      · exact fail path place _
    · exact fail path place _
  | row => exact fail path place _
  | entry => exact fail path place _

-- What is shown of an object of the type of a name.
def Objects (t : Tandem x.schema x.backend x'.backend) (exact : Prop) (name : String)
    (object : Complete.ObjectData σ) (object' : Complete.ObjectData σ') : Prop :=
  ∀ type o o' path, x.schema.catalog.type? name = some type →
    Outcome.Like x.schema type.name o o' →
    t.Along exact (ResponseError.Like exact) Eq (object type o path) (object' type o' path)

variable {object : Complete.ObjectData σ} {object' : Complete.ObjectData σ'}

theorem value {name : String} (objects : Objects t exact name object object') {type : TypeDef}
    (known : x.schema.catalog.type? name = some type) (path : Path) {loc loc' : Location}
    (place : exact → loc' = loc) {o o' : Outcome} (like : Outcome.Like x.schema type.name o o') :
    t.Along exact (ResponseError.Like exact) Eq (Complete.value type object path loc o)
      (Complete.value type object' path loc' o') := by
  unfold Complete.value
  cases type.body with
  | object fields => exact objects type o o' path known like
  | enum values => exact enumValue type values path place like
  | _ =>
    cases like with
    | same =>
      dsimp only
      split
      · exact pure rfl
      · exact fail path place _
    | row => exact fail path place _
    | entry => exact fail path place _

theorem outcome (type : TypeExpr) (objects : Objects t exact type.name object object')
    {loc loc' : Location} (place : exact → loc' = loc) (path : Path) {o o' : Option Outcome}
    (alike : Option.Rel (Outcome.Alike x.schema type) o o') :
    t.Along exact (ResponseError.Like exact) Eq
      (Complete.outcome x.schema.catalog object loc type path o)
      (Complete.outcome x.schema.catalog object' loc' type path o') := by
  induction type generalizing path o o' with
  | named name nonNull =>
    cases alike with
    | none => exact absent nonNull path place
    | @some o o' alike =>
      have like : Outcome.Like x.schema name o o' := by
        cases alike with
        | same => exact .same o
        | one like => exact like
      unfold Complete.outcome
      cases known : x.schema.catalog.type? name with
      | none => exact pure rfl
      | some type =>
        rw [← Catalog.name_of_type? known] at like
        exact (value objects known path place like).map (fun _ => rfl) fun _ _ => congrArg some
  | list item nonNull ih =>
    cases alike with
    | none => exact absent nonNull path place
    | @some o o' alike =>
      have each {items items' : List Outcome}
          (same : List.Forall₂ (Outcome.Alike x.schema item) items items') :
          t.Along exact (ResponseError.Like exact) Eq
            ((some ∘ Datum.list) <$> Complete.elements item.nullable path (fun here o =>
              Complete.outcome x.schema.catalog object loc item here (some o)) 0 items)
            ((some ∘ Datum.list) <$> Complete.elements item.nullable path (fun here o =>
              Complete.outcome x.schema.catalog object' loc' item here (some o)) 0 items') := by
        refine (elements item.nullable path (fun here o o' one => ?_) same 0).map (fun _ => rfl)
          fun _ _ => congrArg _
        exact ih objects here (.some one)
      have refl (items : List Outcome) : List.Forall₂ (Outcome.Alike x.schema item) items items :=
        List.forall₂_same.mpr fun o _ => .same item o
      unfold Complete.outcome
      cases alike with
      | same =>
        split
        · exact each (refl _)
        · exact each (refl _)
        · exact fail path place _
      | many items => exact each (items.imp fun _ _ => .one)

theorem field (grounded : x.schema.Grounded) (same : x'.schema = x.schema) {type : TypeDef}
    {f : FieldDef} (known : x.schema.catalog.type? type.name = some type)
    (declared : type.field? f.name = some f) {on : Option TypeDef}
    (here : ∀ t, on = some t → t = type) (path : Path) {varies : String → Datum → Datum → Prop}
    (admits : x.schema.Admits on f.name varies) {head head' : FieldHead}
    (heads : FieldHead.Alike exact x x' varies head head')
    (objects : Objects t exact f.type.name object object') {parent parent' : Outcome}
    (parents : Outcome.Like x.schema type.name parent parent') :
    t.Along exact (ResponseError.Like exact) Eq (x.field type parent path head object f)
      (x'.field type parent' path head' object' f) := by
  unfold Execution.field
  rw [heads.key, same]
  refine (arguments admits.refl heads f).bind (.refl admits.refl) fun as as' alike => ?_
  refine guard _ _ ((declaredField grounded same known declared here _ heads.place admits alike parents).bind
    (Option.rel_refl (.same _)) fun o o' found => ?_)
  exact outcome f.type objects heads.place _ found

end Along

mutual

theorem Along.selection (grounded : x.schema.Grounded) (same : x'.schema = x.schema) {type : TypeDef}
    (known : x.schema.catalog.type? type.name = some type) {on : Option TypeDef}
    (here : ∀ t, on = some t → t = type) (path : Path) {parent parent' : Outcome}
    (parents : Outcome.Like x.schema type.name parent parent') :
    ∀ n n' : Node, Node.Alike exact x x' on n n' →
      t.Along exact (ResponseError.Like exact) Eq (x.selection type parent path n)
        (x'.selection type parent' path n')
  | .group condition _ children, .group condition' _ children', alike => by
    cases alike with
    | group inside =>
      unfold Execution.selection
      by_cases applied : Execution.applies type.name condition = true
      · rw [if_pos applied, if_pos applied]
        exact Along.selections grounded same known (x.schema.under_applied known here applied) path
          parents children children' inside
      · rw [if_neg applied, if_neg applied]
        exact .pure rfl
  | .field head children, .field head' children', alike => by
    cases alike with
    | @field _ _ _ varies _ _ admits heads inside =>
      have shown (d : Option Datum) : t.Along exact (ResponseError.Like exact) Eq
          (Pure.pure [(head.key, d.getD .null)] : Exec σ (List (String × Datum)))
          (Pure.pure [(head.key, d.getD .null)]) := .pure rfl
      have entrances : x'.entrance? type head.name = x.entrance? type head.name := by
        unfold Execution.entrance?
        rw [same]
      unfold Execution.selection
      rw [heads.name, heads.key, entrances]
      split
      · exact .pure rfl
      · cases entered : x.entrance? type head.name with
        | some f =>
          have entry (t : TypeDef) (there : on = some t) : x.schema.enters t head.name = true := by
            rw [here t there]
            exact List.any_eq_true.mpr ⟨f, List.mem_of_find?_eq_some entered,
              List.find?_some (p := fun f : FieldDef => decide (f.name = head.name)) entered⟩
          have equal : ∀ name d d', varies name d d' → d' = d := by
            rcases admits.taken with equal | ⟨t, same, takes⟩
            · exact equal
            · cases (entry t same).symm.trans takes.own
          have aside : x.schema.inside on head.name = none := by
            cases on with
            | none => rfl
            | some t => simp only [Schema.inside, Option.bind_some, entry t rfl, if_true]
          rw [aside] at inside
          refine (Along.description equal same heads path f inside).bind (fun _ => rfl) ?_
          rintro d _ rfl
          exact shown d
        | none =>
          cases declared : type.field? head.name with
          | none => exact .pure rfl
          | some f =>
            have named : f.name = head.name := by simpa using List.find?_some declared
            have objects : Along.Objects t exact f.type.name
                (fun type o here => Datum.ofResults <$> x.selections type o here children)
                (fun type o here => Datum.ofResults <$> x'.selections type o here children') := by
              intro type' o o' path' found like
              have deeper (t : TypeDef) (there : x.schema.inside on head.name = some t) : t = type' := by
                obtain ⟨u, same, there⟩ := Option.bind_eq_some_iff.mp there
                rw [here u same] at there
                split at there
                · cases there
                · rw [declared, Option.bind_some] at there
                  exact Option.some.inj (there.symm.trans found)
              exact (Along.selections grounded same (Catalog.type?_name found) deeper path' like children
                children' inside).map (fun _ => rfl) fun _ _ => congrArg _
            rw [← named] at admits declared
            refine (Along.field grounded same known declared here path admits heads objects parents).bind
              (fun _ => rfl) ?_
            rintro d _ rfl
            exact shown d
  | .group _ _ _, .field _ _, alike => nomatch alike
  | .field _ _, .group _ _ _, alike => nomatch alike

theorem Along.selections (grounded : x.schema.Grounded) (same : x'.schema = x.schema) {type : TypeDef}
    (known : x.schema.catalog.type? type.name = some type) {on : Option TypeDef}
    (here : ∀ t, on = some t → t = type) (path : Path) {parent parent' : Outcome}
    (parents : Outcome.Like x.schema type.name parent parent') :
    ∀ nodes nodes' : List Node, Node.AllAlike exact x x' on nodes nodes' →
      t.Along exact (ResponseError.Like exact) Eq (x.selections type parent path nodes)
        (x'.selections type parent' path nodes')
  | [], [], _ => by
    unfold Execution.selections
    exact .pure rfl
  | n :: rest, n' :: rest', alike => by
    cases alike with
    | cons first more =>
      unfold Execution.selections
      refine (Along.selection grounded same known here path parents n n' first).bind
        (fun _ => rfl) ?_
      rintro results _ rfl
      refine (Along.selections grounded same known here path parents rest rest' more).bind
        (fun _ => rfl) ?_
      rintro later _ rfl
      exact .pure rfl
  | [], _ :: _, alike => nomatch alike
  | _ :: _, [], alike => nomatch alike

end

end Tandem

end RowGraph
