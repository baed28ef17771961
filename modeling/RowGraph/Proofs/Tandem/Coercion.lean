import RowGraph.Proofs.Language.Names
import RowGraph.Proofs.Tandem.Masking
import RowGraph.Proofs.Tandem.Singles
/-!
Items of a mutation are a list, or one of them alone. Two requests are the same but for the brackets
around such an item, in the text, in fragments, or in what variables stand for. Main statement: if
both are accepted and no hook looks at the brackets, clients are told the same, and the store is the
same afterwards.
-/

namespace RowGraph

variable {σ σ' : Type}

-- A request with its variables, before and after brackets are put around single items or taken away.
structure Recasting where
  before : Query
  after : Query
  values : List (String × Datum)
  values' : List (String × Datum)
  -- What the variables stand for, and which of them stand for a single value.
  slots : String → Slot
  single : String → Prop
  -- Fragments that may be met inside the description of the schema. No resolver is asked there.
  aside : String → Prop

-- Directives take no items.
structure Argument.Kept (w : Recasting) (a a' : Argument) : Prop where
  name : a'.name = a.name
  value : a'.value = a.value
  plain : a.value.Plain w.slots

structure DirectiveCall.Kept (w : Recasting) (d d' : DirectiveCall) : Prop where
  name : d'.name = d.name
  arguments : List.Forall₂ (Argument.Kept w) d.arguments d'.arguments

-- The places in the two texts are the same if messages are to point to the same places.
structure Schema.ArgumentRecast (s : Schema) (exact : Prop) (w : Recasting) (on : Option TypeDef)
    (field : String) (a a' : Argument) : Prop where
  name : a'.name = a.name
  place : exact → a'.valueLoc = a.valueLoc
  value : ∃ slot, s.Expects on field a.name slot ∧ Literal.Recast w.slots w.single slot a.value a'.value

structure FieldHead.Recast (s : Schema) (exact : Prop) (w : Recasting) (on : Option TypeDef)
    (head head' : FieldHead) : Prop where
  label : head'.label = head.label
  name : head'.name = head.name
  place : exact → head'.loc = head.loc
  arguments : List.Forall₂ (s.ArgumentRecast exact w on head.name) head.arguments head'.arguments
  directives : List.Forall₂ (DirectiveCall.Kept w) head.directives head'.directives

def Recasting.matching (s : Schema) (exact : Prop) (w : Recasting) : Matching :=
  ⟨w.before, w.after, FieldHead.Recast s exact w, List.Forall₂ (DirectiveCall.Kept w), w.aside⟩

structure VariableDef.Recast (w : Recasting) (v v' : VariableDef) : Prop where
  name : v'.name = v.name
  type : v'.type = v.type
  fallback : Option.Rel (Datum.Recast (w.slots v.name)) v.fallback v'.fallback

structure OperationDef.Recast (s : Schema) (exact : Prop) (w : Recasting) (o o' : OperationDef) : Prop where
  kind : o'.kind = o.kind
  name : o'.name = o.name
  place : exact → o'.loc = o.loc
  defs : List.Forall₂ (VariableDef.Recast w) o.variableDefs o'.variableDefs
  single : ∀ v ∈ o.variableDefs, w.single v.name →
    ∃ d, (Members.get? v.name w.values <|> v.fallback) = some d ∧ d.isSingle = true
  selections : Selection.AllMatch s (w.matching s exact) ((s.catalog.root? o.kind).bind s.catalog.type?)
    o.selections o'.selections

structure Recasting.Keeps (s : Schema) (exact : Prop) (w : Recasting) : Prop where
  operations : List.Forall₂ (OperationDef.Recast s exact w) w.before.operations w.after.operations
  fragments : (w.matching s exact).Fragments s
  values : Members.Alike (fun name => Datum.Recast (w.slots name)) w.values w.values'

structure Request.Recast (s : Schema) (exact : Prop) (w : Recasting) (r r' : Request) : Prop where
  keeps : w.Keeps s exact
  read : Query.read? r.source = some w.before
  read' : Query.read? r'.source = some w.after
  values : r.values = w.values
  values' : r'.values = w.values'
  operation : r'.operation = r.operation

variable {s : Schema} {exact : Prop} {w : Recasting}

namespace Recasting

theorem skips (keeps : w.Keeps s exact) : (w.matching s exact).Skips w.values w.values' where
  directives _ _ _ heads := FieldHead.Recast.directives heads
  same _ _ calls := by
    refine Node.isSkipped_agree (calls.imp fun d d' kept => ⟨kept.name, ?_⟩)
    refine kept.arguments.imp fun a a' one => ⟨one.name, ?_⟩
    rw [one.value]
    exact one.plain.eval (Node.givenValue_agree keeps.values)

section

variable {o o' : OperationDef} (keeps : w.Keeps s exact) (same : OperationDef.Recast s exact w o o')
  (b : Backend σ) (b' : Backend σ')

include same

theorem single_stands {loc : Location} {name : String} {d : Datum} (single : w.single name)
    (value : (⟨s, b, o.variableDefs, w.values⟩ : Execution σ).variableValue loc name = .ok d) :
    d.isSingle = true := by
  unfold Execution.variableValue at value
  cases found : o.variableDefs.find? (fun v => v.name = name) with
  | none =>
    rw [found] at value
    cases value
  | some v =>
    obtain rfl : v.name = name := by simpa using List.find?_some found
    obtain ⟨d', stands, one⟩ := same.single v (List.mem_of_find?_eq_some found) single
    rw [found] at value
    dsimp only at value
    rw [stands] at value
    exact Except.ok.inj value ▸ one

include keeps

theorem executes : (w.matching s exact).Executes exact (⟨s, b, o.variableDefs, w.values⟩ : Execution σ)
    (⟨s, b', o'.variableDefs, w.values'⟩ : Execution σ') := by
  intro on head head' heads
  change FieldHead.Recast s exact w on head head' at heads
  have key : head'.key = head.key := by
    unfold FieldHead.key
    rw [heads.label, heads.name]
  refine ⟨_, s.admits_recasts on head.name, heads.name, key, heads.place, ?_⟩
  refine heads.arguments.imp fun a a' one => ⟨one.name, one.place, ?_⟩
  obtain ⟨slot, expects, recast⟩ := one.value
  have values (name : String) : Agree (ResponseError.Like exact) (Datum.Recast (w.slots name))
      ((⟨s, b, o.variableDefs, w.values⟩ : Execution σ).variableValue a.valueLoc name)
      ((⟨s, b', o'.variableDefs, w.values'⟩ : Execution σ').variableValue a'.valueLoc name) :=
    Execution.variableValue_agree (R := fun name => Datum.Recast (w.slots name)) (fun _ d => .same d)
      (same.defs.imp fun v v' one => ⟨one.name, one.type, one.fallback⟩) keeps.values one.place name
  refine (recast.eval values fun name d single value => ?_).imp fun d d' one => ⟨slot, expects, one⟩
  exact w.single_stands same b single value

end

end Recasting

-- Two such requests are executed alike, if both are accepted.
theorem Request.Recast.alike {r r' : Request} (recast : Request.Recast s exact w r r')
    {m m' : Request.Measured} (accepted : r.prepare s = .ok m) (accepted' : r'.prepare s = .ok m') :
    Request.Alike s exact r r' := by
  have keeps := recast.keeps
  obtain ⟨q, operations, chosen, read, measured, found, rfl⟩ := prepare_ok accepted
  obtain ⟨q', operations', chosen', read', measured', found', rfl⟩ := prepare_ok accepted'
  obtain rfl := Option.some.inj (recast.read.symm.trans read)
  obtain rfl := Option.some.inj (recast.read'.symm.trans read')
  let R : Measured → Measured → Prop := fun m m' => OperationDef.Recast s exact w m.operation m'.operation ∧
    Node.AllMatch s (w.matching s exact) ((s.catalog.root? m.operation.kind).bind s.catalog.type?)
      m.nodes m'.nodes
  have each : Agree (Refusal.Like False) (List.Forall₂ R) (w.before.operations.mapM (measure w.before))
      (w.after.operations.mapM (measure w.after)) := by
    refine mapM_agree keeps.operations fun o o' same => ?_
    refine (measure_agree keeps.fragments same.selections).imp ?_
    rintro ⟨_, nodes⟩ ⟨_, nodes'⟩ ⟨⟨rfl, rfl⟩, all⟩
    exact ⟨same, all⟩
  rw [measured, measured'] at each
  cases each with
  | ok each =>
    have one : Agree (Refusal.Like exact) R (choose r.operation operations)
        (choose r.operation operations') := choose_agree (fun _ _ one => one.1.name) _ each
    rw [recast.operation] at found'
    rw [found, found'] at one
    cases one with
    | ok one =>
      unfold Request.Alike
      rw [accepted, accepted']
      refine .ok ⟨one.1.kind, one.1.place, fun root rooted σ σ' b b' => ?_⟩
      have nodes := one.2.pruneAll (w.skips keeps)
      rw [rooted] at nodes
      rw [recast.values, recast.values']
      exact Node.AllMatch.alike (w.executes keeps one.1 b b') nodes

theorem Backend.Twin.same (b : Backend σ) : b.Twin b Eq where
  get key t t' same := by
    subst same
    exact ⟨.refl (fun _ => trivial) (fun _ => rfl) _, rfl⟩
  commit op t t' same := by
    subst same
    exact ⟨.refl (fun _ => trivial) (fun _ => rfl) _, rfl⟩

-- With or without the brackets around an item of a mutation, clients are told the same, and the store
-- is the same afterwards.
theorem single_items_listed (built : s.Built) {r r' : Request} (recast : Request.Recast s exact w r r')
    {m m' : Request.Measured} (accepted : r.prepare s = .ok m) (accepted' : r'.prepare s = .ok m')
    (b : Backend σ) (store : σ) :
    let a := s.execute b r store
    let a' := s.execute b r' store
    Answer.Like exact (a.response, a.calls) (a'.response, a'.calls) ∧ a'.store = a.store := by
  have alike := recast.alike accepted accepted'
  have level : ((Backend.Twin.same b).tandem s).level store store := rfl
  rcases ((Backend.Twin.same b).tandem s).execute_along built.grounded alike level with
    absurd | ⟨answers, after⟩
  · exact absurd.elim
  · exact ⟨answers, after.symm⟩

-- Books are put in by lists and looked up by lists.
def depot : String :=
  Overview.ask "type Query" ["books(ids: [ID!]!): [Book]"] ++
  Overview.ask "type Book" ["title: String"] ++
  Overview.ask "type Mutation" ["write(input: Write): ID"] ++
  Overview.ask "input Write" ["add: [New] @create(table: \"Book\")"] ++
  Overview.ask "input New" ["id: ID"]

def depositRequest (items : String) : Request :=
  { source := Overview.ask "mutation" ["write(input: \x7badd: " ++ items ++ "\x7d)"] }

def lookupRequest (ids : String) : Request :=
  { source := Overview.ask "query" [Overview.ask ("books(ids: " ++ ids ++ ")") ["title"]] }

-- What such a mutation reads as, with its parts at any places: an item in brackets or alone.
def itemLiteral (listed : Bool) (id : String) : Literal :=
  if listed then .list [.object [("id", .string id)]] else .object [("id", .string id)]

def depositQuery (items : Literal) (place : Nat → Location) : Query :=
  ⟨[⟨.mutation, none, [], [], place 0, [.field ⟨none, "write",
    [⟨"input", .object [("add", items)], place 1, place 2⟩], [], place 3⟩ (place 4) []], place 5⟩], []⟩

def Literal.item? : Literal → Option (Bool × String)
  | .object [(name, .string id)] => if name = "id" then some (false, id) else none
  | .list [.object [(name, .string id)]] => if name = "id" then some (true, id) else none
  | _ => none

def Query.deposit? (q : Query) : Option (Bool × String) :=
  match q with
  | ⟨[⟨.mutation, none, [], [], _, [.field ⟨none, write, [⟨input, .object [(add, items)], _, _⟩], [], _⟩
      _ []], _⟩], []⟩ =>
    if write = "write" ∧ input = "input" ∧ add = "add" then items.item? else none
  | _ => none

theorem Literal.item?_some {l : Literal} {listed : Bool} {id : String}
    (shown : l.item? = some (listed, id)) : l = itemLiteral listed id := by
  unfold item? at shown
  split at shown
  case h_3 => cases shown
  all_goals
    split at shown
    · rename_i named
      obtain ⟨rfl, rfl⟩ := Prod.mk.inj (Option.some.inj shown)
      rw [named]
      rfl
    · cases shown

theorem Query.deposit?_some {q : Query} {listed : Bool} {id : String} (asked : q.deposit? = some (listed, id)) :
    ∃ place, q = depositQuery (itemLiteral listed id) place := by
  unfold deposit? at asked
  split at asked
  · rename_i p₀ write input add items p₁ p₂ p₃ p₄ p₅
    split at asked
    · rename_i names
      obtain ⟨rfl, rfl, rfl⟩ := names
      obtain rfl := Literal.item?_some asked
      exact ⟨fun i => [p₀, p₁, p₂, p₃, p₄, p₅].getD i .start, rfl⟩
    · cases asked
  · cases asked

-- Brackets are taken away in the text alone.
theorem depositRequest_recast {plan : MutationPlan} {listed single : String} {id : String}
    (site : s.site? ((s.catalog.root? .mutation).bind s.catalog.type?) "write" = some (.mutation plan))
    (named : plan.argument = "input")
    (read : (Query.read? (depositRequest listed).source).bind Query.deposit? = some (true, id))
    (read' : (Query.read? (depositRequest single).source).bind Query.deposit? = some (false, id)) :
    ∃ w, Request.Recast s False w (depositRequest listed) (depositRequest single) := by
  obtain ⟨q, read, asked⟩ := Option.bind_eq_some_iff.mp read
  obtain ⟨q', read', asked'⟩ := Option.bind_eq_some_iff.mp read'
  obtain ⟨place, rfl⟩ := Query.deposit?_some asked
  obtain ⟨place', rfl⟩ := Query.deposit?_some asked'
  obtain ⟨t, there, sited⟩ := Schema.site?_sited site
  have expects : s.Expects ((s.catalog.root? .mutation).bind s.catalog.type?) "write" "input" .input := by
    refine .input there sited.own sited.resolver named fun h absurd => ?_
    rw [sited.unhooked] at absurd
    cases absurd
  let w : Recasting := ⟨depositQuery (itemLiteral true id) place,
    depositQuery (itemLiteral false id) place', [], [], fun _ => .plain, fun _ => False, fun _ => False⟩
  refine ⟨w, ⟨?_, List.Forall₂.nil, .nil⟩, read, read', rfl, rfl, rfl⟩
  refine .cons ⟨rfl, rfl, False.elim, .nil, (fun _ absurd => nomatch absurd), ?_⟩ .nil
  refine .cons (.field ?_ .nil) .nil
  refine ⟨rfl, rfl, False.elim, .cons ⟨rfl, False.elim, .input, expects, ?_⟩ .nil, .nil⟩
  exact .input (.cons ⟨rfl, .unbox (fun _ _ => rfl) trivial⟩ .nil)

theorem depot_items_listed : ∃ (s : Schema) (w : Recasting) (m m' : Request.Measured), s.Built ∧
    let r := depositRequest "[\x7bid: \"2\"\x7d]"
    let r' := depositRequest "\x7bid: \"2\"\x7d"
    Request.Recast s False w r r' ∧ r.prepare s = .ok m ∧ r'.prepare s = .ok m' ∧
    let a := s.execute Memory.backend r shelfStore
    let a' := s.execute Memory.backend r' shelfStore
    (a.store.get? ⟨"Book", ⟨"2"⟩⟩).isSome = true ∧
    Answer.Like False (a.response, a.calls) (a'.response, a'.calls) ∧ a'.store = a.store := by
  let plan : MutationPlan := ⟨"input", [⟨"add", .create, "Book"⟩], .stamp⟩
  have ready : (Session.build {} depot []).toOption.any (fun s => decide (
      s.site? ((s.catalog.root? .mutation).bind s.catalog.type?) "write" = some (.mutation plan) ∧
      ((depositRequest "[\x7bid: \"2\"\x7d]").prepare s).toOption.isSome = true ∧
      ((depositRequest "\x7bid: \"2\"\x7d").prepare s).toOption.isSome = true ∧
      ((s.execute Memory.backend (depositRequest "[\x7bid: \"2\"\x7d]") shelfStore).store.get?
        ⟨"Book", ⟨"2"⟩⟩).isSome = true)) = true := by
    rw [Session.build_toList]
    simp only [depot, String.toList_append, Overview.toList_ask]
    decide +kernel
  obtain ⟨s, made, ready⟩ := (Option.any_eq_true _ _).mp ready
  obtain ⟨site, accepted, accepted', stored⟩ := of_decide_eq_true ready
  have built : s.Built := ⟨{}, depot, [], ok_of_toOption made⟩
  obtain ⟨m, accepted⟩ := Option.isSome_iff_exists.mp accepted
  obtain ⟨m', accepted'⟩ := Option.isSome_iff_exists.mp accepted'
  have accepted := ok_of_toOption accepted
  have accepted' := ok_of_toOption accepted'
  have read : (Query.read? (depositRequest "[\x7bid: \"2\"\x7d]").source).bind Query.deposit? =
      some (true, "2") := by decide +kernel
  have read' : (Query.read? (depositRequest "\x7bid: \"2\"\x7d").source).bind Query.deposit? =
      some (false, "2") := by decide +kernel
  obtain ⟨w, recast⟩ := depositRequest_recast site rfl read read'
  obtain ⟨answers, after⟩ := single_items_listed built recast accepted accepted' Memory.backend shelfStore
  exact ⟨s, w, m, m', built, recast, accepted, accepted', stored, answers, after⟩

-- What is told of errors, and whether the second book is there afterwards.
def Schema.aftermath (s : Schema) (r : Request) : Option (List String) × Bool :=
  let a := s.execute Memory.backend r shelfStore
  (a.response.map fun response => response.errors.map (·.message),
    (a.store.get? ⟨"Book", ⟨"2"⟩⟩).isSome)

-- A hook that looks at the brackets, and a lookup that asks for them.
theorem brackets_told : ∃ s : Schema, s.Built ∧
    let listed := [depositRequest "[\x7bid: \"2\"\x7d]", lookupRequest "[\"1\"]"]
    let single := [depositRequest "\x7bid: \"2\"\x7d", lookupRequest "\"1\""]
    ((listed ++ single).all fun r => (r.prepare s).toOption.isSome) = true ∧
    listed.map s.aftermath = [(some ["no lists"], false), (some [], false)] ∧
    single.map s.aftermath = [(some [], true),
      (some ["Error resolving request: argument `ids` must be a list of ids"], false)] := by
  let hook : Hook := .refuseWhen "fail_if" "no lists" "input"
    (.object [("add", .array [.object [("id", .string "2")]])])
  have ready : (Session.build {} depot [⟨"Mutation", "write", hook⟩]).toOption.any (fun s => decide (
      let listed := [depositRequest "[\x7bid: \"2\"\x7d]", lookupRequest "[\"1\"]"]
      let single := [depositRequest "\x7bid: \"2\"\x7d", lookupRequest "\"1\""]
      ((listed ++ single).all fun r => (r.prepare s).toOption.isSome) = true ∧
      listed.map s.aftermath = [(some ["no lists"], false), (some [], false)] ∧
      single.map s.aftermath = [(some [], true),
        (some ["Error resolving request: argument `ids` must be a list of ids"], false)])) = true := by
    rw [Session.build_toList]
    simp only [depot, String.toList_append, Overview.toList_ask]
    decide +kernel
  obtain ⟨s, made, answers⟩ := (Option.any_eq_true _ _).mp ready
  exact ⟨s, ⟨{}, depot, _, ok_of_toOption made⟩, of_decide_eq_true answers⟩

end RowGraph
