import RowGraph.Execution.Inquiry
import RowGraph.Proofs.Execution.Answers
/-!
Where null may stand in the data of a response, by the selections that it answers and the types on
the way. Main statement: a look at the description of the schema keeps to this, as long as the
document declares no describing type of its own.
-/

namespace RowGraph

variable {σ α β : Type}

-- A field that is asked for, with the selections on what it shows.
abbrev Choice := FieldHead × List Node

def Choice.key (l : Choice) : String := l.1.key

namespace Node

mutual

-- The fields that a selection asks of an object, those of the groups that apply to it among them.
def shownBy (type : String) : Node → List Choice
  | .group condition _ children => if Execution.applies type condition then shown type children else []
  | .field head children => [(head, children)]

def shown (type : String) : List Node → List Choice
  | [] => []
  | n :: rest => shownBy type n ++ shown type rest

end

end Node

-- Where null may stand below a position of a type, which may itself be an element of a list: where
-- the type says so, and in values that are shown as they are stored. A value of a scalar has no
-- positions of its own, and the elements of a list of scalars are not looked at either. Nothing is
-- said of a description by types that a document has put in the place of the describing ones.
inductive Tolerates (c : Catalog) : (element : Bool) → TypeExpr → List Node → Path → Prop where
  | nullable : type.nullable = true → Tolerates c element type nodes []
  | stored {t : TypeDef} : c.type? name = some t → t.body = .scalar →
      Tolerates c true (.named name nonNull) nodes []
  | inside {t : TypeDef} : c.type? name = some t → t.body = .scalar →
      Tolerates c element (.named name nonNull) nodes (step :: rest)
  | item : Tolerates c true item nodes rest →
      Tolerates c element (.list item nonNull) nodes (.index i :: rest)
  | field {t : TypeDef} {f : FieldDef} : c.type? name = some t →
      (head, children) ∈ Node.shown name nodes → t.field? head.name = some f →
      Tolerates c false f.type children rest →
      Tolerates c element (.named name nonNull) nodes (.field head.key :: rest)
  | description {t : TypeDef} {f : FieldDef} : c.type? name = some t →
      (head, children) ∈ Node.shown name nodes →
      ((c.entrances t).find? fun f => f.name = head.name) = some f →
      (c.Plain → Tolerates c false f.type children rest) →
      Tolerates c element (.named name nonNull) nodes (.field head.key :: rest)

theorem Tolerates.element {c : Catalog} {type : TypeExpr} {nodes : List Node} {path : Path}
    (tolerates : Tolerates c false type nodes path) : Tolerates c true type nodes path := by
  cases tolerates with
  | nullable nullable => exact .nullable nullable
  | inside known scalar => exact .inside known scalar
  | item inner => exact .item inner
  | field known choice declared inner => exact .field known choice declared inner
  | description known choice entrance inner => exact .description known choice entrance inner

-- A value of a type with nulls only where they may stand.
def Datum.Clear (c : Catalog) (type : TypeExpr) (nodes : List Node) (d : Datum) : Prop :=
  ∀ path, NullAt path d → Tolerates c false type nodes path

theorem Datum.Clear.null {c : Catalog} {type : TypeExpr} {nodes : List Node}
    (nullable : type.nullable = true) : Datum.Clear c type nodes .null := by
  intro path null
  cases null with
  | here => exact .nullable nullable

-- Whatever a computation gives back has a property.
def Ensures (P : α → Prop) (x : Exec σ α) : Prop := ∀ r a, (x r).1 = .ok a → P a

namespace Ensures

variable {P : α → Prop} {Q : β → Prop}

theorem pure {a : α} (holds : P a) : Ensures P (Pure.pure a : Exec σ α) := by
  intro r a' same
  obtain rfl := Except.ok.inj same
  exact holds

theorem throw (e : ResponseError) : Ensures P (MonadExcept.throw e : Exec σ α) :=
  fun _ _ same => nomatch same

theorem bind {x : Exec σ α} {f : α → Exec σ β} (first : Ensures P x)
    (rest : ∀ a, P a → Ensures Q (f a)) : Ensures Q (x >>= f) := by
  intro r b made
  rw [bind_apply] at made
  rcases ran : x r with ⟨e | a, r'⟩
  · rw [ran] at made
    cases made
  · rw [ran] at made
    exact rest a (first r a (by rw [ran])) r' b made

theorem map {x : Exec σ α} (f : α → β) (inside : Ensures (fun a => Q (f a)) x) :
    Ensures Q (f <$> x) := by
  have unfolded : f <$> x = x >>= fun a => Pure.pure (f a) := map_eq_pure_bind f x
  rw [unfolded]
  exact inside.bind fun a holds => .pure holds

theorem guard {P : Option Datum → Prop} (path : Path) {nullable : Bool} {x : Exec σ (Option Datum)}
    (absent : nullable = true → P none) (inside : Ensures P x) :
    Ensures P (Exec.guard path nullable x) := by
  intro r d made
  unfold Exec.guard at made
  rcases ran : x r with ⟨e | d', r'⟩
  · rw [ran] at made
    cases nullable with
    | false => cases made
    | true =>
      obtain rfl := Except.ok.inj made
      exact absent rfl
  · rw [ran] at made
    obtain rfl := Except.ok.inj made
    exact inside r d' (by rw [ran])

theorem catching {P : Option Datum → Prop} {nullable : Bool} {x : Exec σ (Option Datum)}
    (absent : nullable = true → P none) (inside : Ensures P x) :
    Ensures P (Exec.catching nullable x) := by
  intro r d made
  unfold Exec.catching at made
  rcases ran : x r with ⟨e | d', r'⟩
  · rw [ran] at made
    cases nullable with
    | false => cases made
    | true =>
      obtain rfl := Except.ok.inj made
      exact absent rfl
  · rw [ran] at made
    obtain rfl := Except.ok.inj made
    exact inside r d' (by rw [ran])

theorem relocated (path : Path) {x : Exec σ α} (inside : Ensures P x) :
    Ensures P (Exec.relocated path x) := by
  intro r a made
  rw [Exec.relocated, adapt_apply] at made
  cases result : (x r).1 with
  | error e =>
    rw [result] at made
    cases made
  | ok a' =>
    rw [result] at made
    obtain rfl := Except.ok.inj made
    exact inside r a' result

-- An element that may not be null has a value or fails.
theorem element {P : Option Datum → Prop} (path : Path) {x : Exec σ (Option Datum)}
    (inside : Ensures P x) : Ensures P (Exec.element path false x) := by
  intro r d made
  unfold Exec.element at made
  rw [bind_apply, lift_apply] at made
  rcases found : Exec.takeMark path r with ⟨_ | _ | e, r'⟩
  · rw [found] at made
    exact guard path (fun absurd => nomatch absurd) inside r' d made
  · rw [found] at made
    cases made
  · rw [found] at made
    cases made

theorem elements {P : Datum → Prop} (path : Path) {body : Path → α → Exec σ (Option Datum)}
    {as : List α} (inside : ∀ a ∈ as, ∀ q, Ensures (fun d => P (d.getD .null)) (body q a))
    (index : Nat) :
    Ensures (fun ds => ∀ d ∈ ds, P d) (Complete.elements false path body index as) := by
  induction as generalizing index with
  | nil => exact pure fun _ absurd => nomatch absurd
  | cons a rest ih =>
    refine bind (element _ (inside a List.mem_cons_self _)) fun d here => ?_
    have others := ih (fun b member => inside b (List.mem_cons_of_mem _ member)) (index + 1)
    refine bind others fun ds later => ?_
    exact pure (List.forall_mem_cons.mpr ⟨here, later⟩)

end Ensures

theorem Tolerates.named {c : Catalog} {element nonNull : Bool} {name : String} {nodes : List Node}
    {path : Path} (tolerates : Tolerates c element (.named name true) nodes path) :
    Tolerates c element (.named name nonNull) nodes path := by
  cases tolerates with
  | nullable absurd => cases absurd
  | stored known scalar => exact .stored known scalar
  | inside known scalar => exact .inside known scalar
  | field known choice declared inner => exact .field known choice declared inner
  | description known choice entrance inner => exact .description known choice entrance inner

-- What is shown under one question, with nulls only where they may stand.
def Settles (c : Catalog) (name : String) (head : FieldHead) (children : List Node) (d : Datum) :
    Prop :=
  ∃ t f, c.type? name = some t ∧ t.field? head.name = some f ∧ d.Clear c f.type children

-- The same of all that is shown of a part.
def Tells (c : Catalog) (name : String) (asked : List Choice) (results : List (String × Datum)) :
    Prop :=
  ∀ key d, (key, d) ∈ results → d.Solid ∨ ∃ head children,
    (head, children) ∈ asked ∧ head.key = key ∧ Settles c name head children d

theorem Tells.object {c : Catalog} {name : String} {nodes : List Node}
    {results : List (String × Datum)} (tells : Tells c name (Node.shown name nodes) results) :
    (Datum.ofResults results).Clear c (.named name true) nodes := by
  intro path null
  obtain ⟨key, d, rest, rfl, shown, inner⟩ := Datum.ofResults_null null
  rcases tells key d shown with solid | ⟨head, children, choice, rfl, t, f, known, declared, clear⟩
  · exact absurd inner (solid rest)
  · exact .field known choice declared (clear rest inner)

namespace Ensures

variable {c : Catalog} {children : List Node} {part : Described → Path → Exec σ Datum}

theorem answered
    (parts : ∀ d q, d.Sound c → Ensures (·.Clear c (.named d.typeName true) children) (part d q))
    {type : TypeExpr} {answer : Option Described.Answer} (answers : Described.Answers c type answer)
    (path : Path) :
    Ensures (fun d => (d.getD .null).Clear c type children) (Execution.answered part path answer) := by
  cases answers with
  | none nullable => exact pure (.null nullable)
  | leaf solid => exact pure fun path null => absurd null (solid path)
  | @leaves _ _ ds solid =>
    have shown : Ensures (σ := σ) (fun shown => ∀ d ∈ shown, d.Solid)
        (Complete.elements false path (fun _ d => Pure.pure (some d)) 0 ds) :=
      elements path (fun d member _ => pure (solid d member)) 0
    refine map _ fun r ds' made path' null => ?_
    cases null with
    | index found null => exact absurd null (shown r ds' made _ (List.mem_of_getElem? found) _)
  | part same sound =>
    refine map _ fun r d made => ?_
    intro path' null
    exact (same ▸ parts _ path sound r d made path' null).named
  | @parts name _ ds all =>
    have each (d : Described) (member : d ∈ ds) (q : Path) :
        Ensures (fun shown => (shown.getD .null).Clear c (.named name true) children)
          (Exec.relocated q (some <$> part d q)) :=
      relocated q (map _ ((all d member).1 ▸ parts d q (all d member).2))
    have shown := elements path each 0
    refine map _ fun r ds' made path' null => ?_
    cases null with
    | index found null =>
      exact .item (shown r ds' made _ (List.mem_of_getElem? found) _ null).element

end Ensures

namespace Described

-- A part is described by the type that comes with every document.
theorem typeName_describing (d : Described) :
    ∃ t, Description.type? d.typeName = some t ∧ t.name = d.typeName := by
  cases d <;> exact ⟨_, rfl, rfl⟩

end Described

namespace Described

-- What is asked for by name is a type that is known.
theorem enter_type {c : Catalog} {arguments : Arguments} {d : Described}
    (entered : enter c arguments "__type" = some d) : d.typeName = "__Type" ∧ d.Sound c := by
  simp only [enter] at entered
  split at entered
  · rename_i absurd
    simp at absurd
  · split at entered
    · obtain ⟨t, shown, rfl⟩ := Option.map_eq_some_iff.mp entered
      exact ⟨rfl, Catalog.knows_type (List.mem_of_mem_filter (List.mem_of_find?_eq_some shown))⟩
    · cases entered

end Described

namespace Ensures

variable {x : Execution σ}

theorem question (closed : x.schema.catalog.Closed)
    (described : x.schema.catalog.introspection = true) {d : Described}
    (sound : d.Sound x.schema.catalog) (path : Path) (head : FieldHead)
    (children : List Node) {part : Described → Path → Exec σ Datum}
    (parts : ∀ d q, d.Sound x.schema.catalog →
      Ensures (·.Clear x.schema.catalog (.named d.typeName true) children) (part d q)) :
    Ensures (fun v => Settles x.schema.catalog d.typeName head children (v.getD .null))
      (x.question d path head part) := by
  obtain ⟨t, describes, named⟩ := d.typeName_describing
  have known := closed.describing described d.typeName t describes
  have aside : x.schema.catalog.entrances t = [] := by
    unfold Catalog.entrances
    refine if_neg fun same => ?_
    rw [Bool.and_eq_true, decide_eq_true_eq] at same
    have absurd := closed.own
    rw [← same.2, named, describes] at absurd
    cases absurd
  have own (name : String) : x.schema.catalog.field? t name = t.field? name := by
    unfold Catalog.field?
    rw [aside]
    rfl
  have same (name : String) : Description.field? d.typeName name = t.field? name := by
    unfold Description.field?
    rw [describes]
    rfl
  unfold Execution.question
  cases declared : t.field? head.name with
  | none =>
    simp only [known, Option.bind_some, own, declared]
    exact throw _
  | some f =>
    have fits := Described.answers closed sound ((same head.name).trans declared)
    have absent (nullable : f.type.nullable = true) :
        ((none : Option Datum).getD .null).Clear x.schema.catalog f.type children := .null nullable
    have shown : Ensures (fun v => (v.getD .null).Clear x.schema.catalog f.type children)
        (Exec.guard (path ++ [.field head.key]) f.type.nullable do
          let _ ← x.fittingArguments head f.arguments
          Exec.catching f.type.nullable (Execution.answered part (path ++ [.field head.key])
            (d.answer x.schema.catalog head.name))) := by
      refine guard _ absent (bind (P := fun _ => True) (fun _ _ _ => trivial) fun _ _ => ?_)
      exact catching absent (answered parts fits _)
    intro r v made
    simp only [known, Option.bind_some, own, same, declared] at made
    exact ⟨t, f, known, declared, shown r v made⟩

mutual

theorem inquireOne (closed : x.schema.catalog.Closed)
    (described : x.schema.catalog.introspection = true) {d : Described}
    (sound : d.Sound x.schema.catalog) (path : Path) : ∀ n : Node,
    Ensures (Tells x.schema.catalog d.typeName (Node.shownBy d.typeName n)) (x.inquireOne d path n)
  | .group condition _ children => by
    rw [Execution.inquireOne, Node.shownBy]
    split
    · exact inquire closed described sound path children
    · exact pure fun _ _ absurd => nomatch absurd
  | .field head children => by
    rw [Execution.inquireOne, Node.shownBy]
    split
    · refine pure fun key d member => .inl ?_
      obtain ⟨rfl, rfl⟩ := Prod.mk.inj (List.mem_singleton.mp member)
      exact .string _
    · refine bind (question closed described sound path head children fun d q sound => ?_)
        fun v settles => ?_
      · refine map _ fun r results made => ?_
        exact (inquire closed described sound q children r results made).object
      · refine pure fun key d member => .inr ?_
        obtain ⟨rfl, rfl⟩ := Prod.mk.inj (List.mem_singleton.mp member)
        exact ⟨head, children, List.mem_singleton_self _, rfl, settles⟩

theorem inquire (closed : x.schema.catalog.Closed)
    (described : x.schema.catalog.introspection = true) {d : Described}
    (sound : d.Sound x.schema.catalog) (path : Path) : ∀ nodes : List Node,
    Ensures (Tells x.schema.catalog d.typeName (Node.shown d.typeName nodes)) (x.inquire d path nodes)
  | [] => by
    rw [Execution.inquire]
    exact pure fun _ _ absurd => nomatch absurd
  | n :: rest => by
    rw [Execution.inquire, Node.shown]
    refine bind (inquireOne closed described sound path n) fun results first => ?_
    refine bind (inquire closed described sound path rest) fun more later => ?_
    refine pure fun key d member => ?_
    rcases List.mem_append.mp member with here | there
    · refine (first key d here).imp_right ?_
      rintro ⟨head, children, choice, settles⟩
      exact ⟨head, children, List.mem_append_left _ choice, settles⟩
    · refine (later key d there).imp_right ?_
      rintro ⟨head, children, choice, settles⟩
      exact ⟨head, children, List.mem_append_right _ choice, settles⟩

end

theorem enterDescription (closed : x.schema.catalog.Closed)
    (described : x.schema.catalog.introspection = true) {f : FieldDef}
    (entrance : f ∈ Description.entrances) (path : Path) (head : FieldHead) (children : List Node) :
    Ensures (fun d => (d.getD .null).Clear x.schema.catalog f.type children)
      (x.enterDescription path head f children) := by
  unfold Execution.enterDescription
  refine bind (P := fun _ => True) (fun _ _ _ => trivial) fun arguments _ => ?_
  rcases entrance with _ | ⟨_, _ | ⟨_, absurd⟩⟩
  · refine catching (fun absurd => by cases absurd) (map _ fun r results made => ?_)
    exact (inquire closed described (d := .schema) trivial path children r results made).object
  · dsimp only
    cases entered : Described.enter x.schema.catalog arguments "__type" with
    | none => exact pure (.null rfl)
    | some d =>
      obtain ⟨name, sound⟩ := Described.enter_type entered
      refine catching (fun _ => .null rfl) (map _ fun r results made path' null => ?_)
      have tells := inquire closed described sound path children r results made
      rw [name] at tells
      exact (tells.object path' null).named
  · cases absurd

end Ensures

end RowGraph
