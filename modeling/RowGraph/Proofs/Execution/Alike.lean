import RowGraph.Proofs.Execution.Agreement
import RowGraph.Proofs.Language.Equality
import RowGraph.Proofs.Validation.Alike
/-!
Executing requests against schemas that are alike. Everything that an execution asks of its schema is
answered alike. Main statement: a text whose definitions come in another order, with other
definitions of directives among them, is turned down or accepted just as the text is, and the two
schemas answer every sequence of requests in the same way.
-/

namespace RowGraph

variable {σ : Type}

namespace Catalog.Alike

variable {c c' : Catalog} (same : c.Alike c')

include same

theorem answer (d : Described) : d.answer c' = d.answer c := by
  funext question
  have values (t : TypeDef) : Described.valuesOf c' t = Described.valuesOf c t := by
    unfold Described.valuesOf
    rw [same.isDeclared]
  have named (t : TypeDef) : Described.answerNamed c' t = Described.answerNamed c t := by
    funext question
    unfold Described.answerNamed
    rw [values]
  cases d with
  | schema =>
    change Described.answerSchema c' question = Described.answerSchema c question
    unfold Described.answerSchema
    rw [same.names, same.query, same.mutation]
  | type t =>
    change Described.answerType c' t question = Described.answerType c t question
    unfold Described.answerType
    simp only [same.type?, named]
  | field | input | enumValue | directive => rfl

theorem enter (arguments : Arguments) (field : String) :
    Described.enter c' arguments field = Described.enter c arguments field := by
  unfold Described.enter
  rw [same.shown?]

end Catalog.Alike

namespace Execution

-- Executions of one operation against schemas that are described alike.
structure SameCatalog (x x' : Execution σ) : Prop extends SameVariables x x' where
  catalog : x.schema.catalog.Alike x'.schema.catalog

theorem SameCatalog.question {x x' : Execution σ} (same : x.SameCatalog x') (d : Described)
    (path : Path) (head : FieldHead) (part : Described → Path → Exec σ Datum) :
    x'.question d path head part = x.question d path head part := by
  unfold Execution.question
  simp only [same.catalog.type?, same.catalog.agrees.field?, same.catalog.answer,
    same.fittingArguments]

mutual

theorem SameCatalog.inquireOne {x x' : Execution σ} (same : x.SameCatalog x') (d : Described)
    (path : Path) : ∀ n, x'.inquireOne d path n = x.inquireOne d path n
  | .group condition loc children => by
    unfold Execution.inquireOne
    rw [same.inquire d path children]
  | .field head children => by
    unfold Execution.inquireOne
    have parts :
        (fun (d : Described) (here : Path) => Datum.ofResults <$> x'.inquire d here children) =
          fun d here => Datum.ofResults <$> x.inquire d here children := by
      funext d here
      rw [same.inquire d here children]
    rw [same.question, parts]

theorem SameCatalog.inquire {x x' : Execution σ} (same : x.SameCatalog x') (d : Described)
    (path : Path) : ∀ nodes, x'.inquire d path nodes = x.inquire d path nodes
  | [] => rfl
  | n :: rest => by
    unfold Execution.inquire
    rw [same.inquireOne d path n, same.inquire d path rest]

end

theorem SameCatalog.describes {x x' : Execution σ} (same : x.SameCatalog x') : x.Describes x' := by
  intro path head f children
  unfold Execution.enterDescription
  simp only [same.fittingArguments, same.catalog.enter, same.inquire]

end Execution

theorem Schema.Alike.agrees {s s' : Schema} (same : s.Alike s') (b : Backend σ)
    (declared : List VariableDef) (given : List (String × Datum)) :
    Execution.Agrees (fun _ => True) ⟨s, b, declared, given⟩ ⟨s', b, declared, given⟩ where
  declared := rfl
  given := rfl
  catalog := same.catalog.agrees
  resolvers type field _ := congrArg (FieldMap.get? · type field) same.resolvers
  hooks type field _ := congrArg (FieldMap.get? · type field) same.hooks
  backend := rfl

theorem Schema.Alike.execute {s s' : Schema} (same : s.Alike s') (b : Backend σ) (r : Request)
    (store : σ) : s'.execute b r store = s.execute b r store := by
  have ran (root : TypeDef) (nodes : List Node) (declared : List VariableDef)
      (given : List (String × Datum)) : Execution.run ⟨s', b, declared, given⟩ root nodes store =
        Execution.run ⟨s, b, declared, given⟩ root nodes store := by
    have agrees := same.agrees b declared given
    have describes : Execution.SameCatalog ⟨s, b, declared, given⟩ ⟨s', b, declared, given⟩ :=
      ⟨agrees.toSameVariables, same.catalog⟩
    exact agrees.run trivial (fun _ _ => trivial) (.inl describes.describes) store
  unfold Schema.execute
  simp only [same.prepare, same.catalog.agrees.root?, same.catalog.type?, ran]

-- Requests one after another, each on the store that the one before it has left.
def Schema.serve (s : Schema) (b : Backend σ) :
    List Request → σ → List (Option Response × List HookCall) × σ
  | [], store => ([], store)
  | r :: rest, store =>
    let a := s.execute b r store
    let (answers, last) := s.serve b rest a.store
    ((a.response, a.calls) :: answers, last)

theorem Schema.Alike.serve {s s' : Schema} (same : s.Alike s') (b : Backend σ)
    (requests : List Request) (store : σ) : s'.serve b requests store = s.serve b requests store := by
  induction requests generalizing store with
  | nil => rfl
  | cons r rest ih =>
    unfold Schema.serve
    simp only [same.execute, ih]

-- What two blueprints have in common whose definitions are the same.
structure Blueprint.Agrees (b b' : Blueprint) : Prop where
  query : b'.document.query = b.document.query
  mutation : b'.document.mutation = b.document.mutation
  kindOf : ∀ name, b'.document.kindOf name = b.document.kindOf name
  entryTable? : ∀ name, b'.document.entryTable? name = b.document.entryTable? name
  -- Also the order of the bindings of a mutation.
  resolvers : b'.resolvers = b.resolvers
  hooks : b'.hooks = b.hooks

theorem definition_order_immaterial {source source' : String} {defs defs' : List Definition}
    (parsed : Definition.readAll? source = some defs)
    (parsed' : Definition.readAll? source' = some defs')
    (same : Definition.Reordered defs defs') :
    ((∃ b, Blueprint.read source = .ok b) ↔ ∃ b', Blueprint.read source' = .ok b') ∧
    (∀ b b', Blueprint.read source = .ok b → Blueprint.read source' = .ok b' → b.Agrees b') ∧
    ∀ settings hooks,
      ((∃ s, Session.build settings source hooks = .ok s) ↔
        ∃ s', Session.build settings source' hooks = .ok s') ∧
      ∀ s s', Session.build settings source hooks = .ok s →
        Session.build settings source' hooks = .ok s' →
        ∀ (σ : Type) (b : Backend σ) (requests : List Request) (store : σ),
          s'.serve b requests store = s.serve b requests store := by
  refine ⟨⟨?_, ?_⟩, ?_, fun settings hooks => ⟨⟨?_, ?_⟩, ?_⟩⟩
  · rintro ⟨b, accepted⟩
    obtain ⟨b', accepted', _⟩ := Blueprint.read_reordered parsed parsed' same accepted
    exact ⟨b', accepted'⟩
  · rintro ⟨b', accepted'⟩
    obtain ⟨b, accepted, _⟩ := Blueprint.read_reordered parsed' parsed same.symm accepted'
    exact ⟨b, accepted⟩
  · intro b b' accepted accepted'
    obtain ⟨c, found, alike⟩ := Blueprint.read_reordered parsed parsed' same accepted
    obtain rfl : c = b' := Except.ok.inj (found.symm.trans accepted')
    have document := alike.document
    exact ⟨document.query, document.mutation, congrFun document.kindOf,
      congrFun document.entryTable?, alike.resolvers, alike.hooks⟩
  · rintro ⟨s, built⟩
    obtain ⟨s', built', _⟩ := Session.build_reordered parsed parsed' same built
    exact ⟨s', built'⟩
  · rintro ⟨s', built'⟩
    obtain ⟨s, built, _⟩ := Session.build_reordered parsed' parsed same.symm built'
    exact ⟨s, built⟩
  · intro s s' built built' σ b requests store
    obtain ⟨t, found, alike⟩ := Session.build_reordered parsed parsed' same built
    obtain rfl : t = s' := Except.ok.inj (found.symm.trans built')
    exact alike.serve b requests store

instance (defs defs' : List Definition) : Decidable (Definition.Reordered defs defs') :=
  inferInstanceAs (Decidable (List.Perm _ _))

-- A wrapper before what it wraps and before the root, and after both.
def wrapperFirst : String :=
  Overview.ask "type Shown" ["value: Book", "versionstamp: ID"] ++
  Overview.ask "type Book" ["title: String"] ++
  Overview.ask "type Query" ["book(id: ID): Shown"]

def wrapperLast : String :=
  Overview.ask "type Query" ["book(id: ID): Shown"] ++
  Overview.ask "type Book" ["title: String"] ++
  Overview.ask "type Shown" ["value: Book", "versionstamp: ID"]

theorem wrappers_alike : ∃ defs defs' s s', Definition.readAll? wrapperFirst = some defs ∧
    Definition.readAll? wrapperLast = some defs' ∧ Definition.Reordered defs defs' ∧
    Session.build {} wrapperFirst [] = .ok s ∧ Session.build {} wrapperLast [] = .ok s' ∧
    ∀ requests, s'.serve Memory.backend requests Memory.empty =
      s.serve Memory.backend requests Memory.empty := by
  have shown : ((Definition.readAll? wrapperFirst).bind fun defs =>
      (Definition.readAll? wrapperLast).bind fun defs' =>
      (Session.build {} wrapperFirst []).toOption.bind fun _ =>
      (Session.build {} wrapperLast []).toOption.map fun _ =>
        decide (Definition.Reordered defs defs')) = some true := by
    simp only [Definition.readAll?_toList, Session.build_toList, wrapperFirst, wrapperLast,
      String.toList_append, Overview.toList_ask]
    decide +kernel
  simp only [Option.bind_eq_some_iff, Option.map_eq_some_iff, decide_eq_true_eq] at shown
  obtain ⟨defs, parsed, defs', parsed', s, built, s', built', same⟩ := shown
  have built := ok_of_toOption built
  have built' := ok_of_toOption built'
  have alike := (definition_order_immaterial parsed parsed' same).2.2 {} []
  exact ⟨defs, defs', s, s', parsed, parsed', same, built, built', fun requests =>
    alike.2 s s' built built' Memory Memory.backend requests Memory.empty⟩

end RowGraph
