import RowGraph.Execution.Request
/-!
Execution with a record of its invocations. Every field and every list element that is invoked is
written down, with the error that was raised in it and with what it gave back; what is inside of it
is kept with it. The description of the schema has rules of its own, so only its errors are kept.
Main statement: without the record this is the execution itself.
-/

namespace RowGraph

-- A field that was asked for, with the object it was asked of.
structure Asked where
  type : String
  field : String
  parent : Outcome
  arguments : Arguments

-- Where errors may stop. An element of a list is no field of its own.
structure Place where
  path : Path
  nullable : Bool
  asked : Option Asked := none

-- An error on its way: raised right there, or come out of a position inside.
inductive Fault where
  | raised (e : ResponseError)
  | passed (e : ResponseError)

namespace Fault

def error : Fault → ResponseError
  | .raised e => e
  | .passed e => e

def raised? : Fault → Option ResponseError
  | .raised e => some e
  | .passed _ => none

end Fault

structure Visit where
  place : Place
  -- The mark that an element has found.
  mark : Option (Option ResponseError) := none
  -- The errors that a resolver has handed to elements of its list.
  handed : List (Path × ResponseError) := []
  -- The error that was raised there and not inside.
  raised : Option ResponseError := none
  -- What was given back: a value, which may be null, or the error that went on outwards.
  answer : Except ResponseError (Option Datum) := .ok none

inductive Invocation where
  | position (v : Visit) (inside : List Invocation)
  | description (stopped : List ResponseError) (left : Option ResponseError)

structure Watch (σ α : Type) where
  result : Except Fault α
  run : Run σ
  seen : List Invocation

def Watched (σ α : Type) : Type := Run σ → Watch σ α

namespace Watched

variable {σ α β : Type}

protected def pure (a : α) : Watched σ α := fun r => ⟨.ok a, r, []⟩

protected def bind (x : Watched σ α) (f : α → Watched σ β) : Watched σ β := fun r =>
  let w := x r
  match w.result with
  | .ok a => ⟨(f a w.run).result, (f a w.run).run, w.seen ++ (f a w.run).seen⟩
  | .error e => ⟨.error e, w.run, w.seen⟩

instance : Monad (Watched σ) where
  pure := Watched.pure
  bind := Watched.bind

theorem bind_of_ok {x : Watched σ α} {f : α → Watched σ β} {r : Run σ} {a : α}
    (result : (x r).result = .ok a) :
    (x >>= f) r = ⟨(f a (x r).run).result, (f a (x r).run).run,
      (x r).seen ++ (f a (x r).run).seen⟩ := by
  change Watched.bind x f r = _
  unfold Watched.bind
  simp only [result]

theorem bind_of_error {x : Watched σ α} {f : α → Watched σ β} {r : Run σ} {fault : Fault}
    (result : (x r).result = .error fault) :
    (x >>= f) r = ⟨.error fault, (x r).run, (x r).seen⟩ := by
  change Watched.bind x f r = _
  unfold Watched.bind
  simp only [result]

theorem map_eq_bind (f : α → β) (x : Watched σ α) : f <$> x = x >>= fun a => pure (f a) := rfl

theorem map_record (f : α → β) (x : Watched σ α) (r : Run σ) :
    ((f <$> x) r).run = (x r).run ∧ ((f <$> x) r).seen = (x r).seen := by
  rw [map_eq_bind]
  cases result : (x r).result with
  | ok a =>
    rw [bind_of_ok result]
    exact ⟨rfl, List.append_nil _⟩
  | error fault =>
    rw [bind_of_error result]
    exact ⟨rfl, rfl⟩

theorem result_map {f : α → β} {x : Watched σ α} {r : Run σ} {b : β}
    (made : ((f <$> x) r).result = .ok b) : ∃ a, (x r).result = .ok a ∧ f a = b := by
  rw [map_eq_bind] at made
  cases result : (x r).result with
  | ok a =>
    rw [bind_of_ok result] at made
    exact ⟨a, rfl, Except.ok.inj made⟩
  | error fault =>
    rw [bind_of_error result] at made
    cases made

-- A step that invokes nothing: an error from it is raised right there.
def own (x : Exec σ α) : Watched σ α := fun r =>
  match x r with
  | (.ok a, r') => ⟨.ok a, r', []⟩
  | (.error e, r') => ⟨.error (.raised e), r', []⟩

theorem result_own {x : Exec σ α} {r : Run σ} {a : α} (made : (own x r).result = .ok a) :
    (x r).1 = .ok a := by
  unfold own at made
  rcases ran : x r with ⟨e | a', r'⟩
  · rw [ran] at made
    cases made
  · rw [ran] at made
    rw [Except.ok.inj made]

-- What goes on with what another computation has given.
def continued (w : Except ResponseError α × Run σ) (f : α → Watched σ β) : Watch σ β :=
  match w with
  | (.ok a, s) => f a s
  | (.error e, s) => ⟨.error (.raised e), s, []⟩

theorem continued_eq (x : Exec σ α) (f : α → Watched σ β) (r : Run σ) :
    (own x >>= f) r = continued (x r) f := by
  change Watched.bind (Watched.own x) f r = _
  unfold Watched.bind own
  rcases x r with ⟨e | a, s⟩ <;> rfl

def close (v : Visit) (w : Watch σ (Option Datum)) : Watch σ (Option Datum) :=
  match w.result with
  | .ok d => ⟨.ok d, w.run, [.position { v with answer := .ok d } w.seen]⟩
  | .error fault =>
    let e := Exec.located v.place.path fault.error
    let v := { v with raised := fault.raised? }
    if v.place.nullable then
      ⟨.ok none, { w.run with absorbed := w.run.absorbed ++ [e] },
        [.position { v with answer := .ok none } w.seen]⟩
    else ⟨.error (.passed e), w.run, [.position { v with answer := .error e } w.seen]⟩

structure Closed (v : Visit) (w w' : Watch σ (Option Datum)) (v' : Visit) : Prop where
  seen : w'.seen = [.position v' w.seen]
  place : v'.place = v.place
  mark : v'.mark = v.mark
  handed : v'.handed = v.handed
  store : w'.run.store = w.run.store
  marks : w'.run.marks = w.run.marks
  raised : ∀ e, w.result = .error (.raised e) → v'.raised = some e
  nullable : v.place.nullable = true → ∃ d, w'.result = .ok d
  value : ∀ d, v'.answer = .ok (some d) → w.result = .ok (some d)

theorem close_closed (v : Visit) (w : Watch σ (Option Datum)) : ∃ v', Closed v w (close v w) v' := by
  unfold close
  cases result : w.result with
  | ok d =>
    refine ⟨{ v with answer := .ok d }, rfl, rfl, rfl, rfl, rfl, rfl, ?_, fun _ => ⟨d, rfl⟩, ?_⟩
    · intro e same
      rw [result] at same
      cases same
    · intro d' same
      rw [result, Except.ok.inj same]
  | error fault =>
    simp only
    have raised (e : ResponseError) (same : w.result = .error (.raised e)) :
        fault.raised? = some e := by
      rw [result] at same
      obtain rfl := Except.error.inj same
      rfl
    cases nullable : v.place.nullable with
    | true =>
      exact ⟨_, rfl, rfl, rfl, rfl, rfl, rfl, raised, fun _ => ⟨none, rfl⟩, fun _ same => nomatch same⟩
    | false =>
      exact ⟨_, rfl, rfl, rfl, rfl, rfl, rfl, raised,
        fun absurd => (nomatch absurd.symm.trans nullable), fun _ same => nomatch same⟩

def element (path : Path) (nullable : Bool) (body : Watched σ (Option Datum)) :
    Watched σ (Option Datum) := fun r =>
  let v : Visit := { place := { path, nullable } }
  match Exec.takeMark path r with
  | (some (some e), r') => close { v with mark := some (some e) } ⟨.error (.raised e), r', []⟩
  | (some none, r') =>
    close { v with mark := some none }
      ⟨if nullable then .ok none else .error (.raised Exec.missingElement), r', []⟩
  | (none, r') => close v (body r')

-- An element is no field, and what is closed is its body unless it has found a mark.
theorem element_close (path : Path) (nullable : Bool) (body : Watched σ (Option Datum)) (r : Run σ) :
    ∃ v w, element path nullable body r = close v w ∧ v.place.asked = none ∧
      (w = body (Exec.takeMark path r).2 ∨ w.run = (Exec.takeMark path r).2 ∧ w.seen = []) := by
  unfold element
  rcases taken : Exec.takeMark path r with ⟨_ | _ | e, r'⟩
  · exact ⟨_, _, rfl, rfl, .inl rfl⟩
  · exact ⟨_, _, rfl, rfl, .inr ⟨rfl, rfl⟩⟩
  · exact ⟨_, _, rfl, rfl, .inr ⟨rfl, rfl⟩⟩

abbrev ObjectData (σ : Type) := TypeDef → Outcome → Path → Watched σ Datum

-- Only objects have positions inside.
def value (t : TypeDef) (object : ObjectData σ) (path : Path) (loc : Location) (o : Outcome) :
    Watched σ Datum :=
  match t.body with
  | .object _ => object t o path
  | _ => own (Complete.value t (fun _ _ _ => pure .null) path loc o)

def elements (nullable : Bool) (path : Path) (body : Path → Outcome → Watched σ (Option Datum)) :
    (index : Nat) → List Outcome → Watched σ (List Datum)
  | _, [] => pure []
  | index, o :: rest => do
    let here := path ++ [.index index]
    let d ← element here nullable (body here o)
    let ds ← elements nullable path body (index + 1) rest
    pure (d.getD .null :: ds)

-- The elements of what a resolver has delivered for a list.
def itemsOf? : Outcome → Option (List Outcome)
  | .list items => some items
  | .leaf (.list items) => some (items.map .leaf)
  | _ => none

def outcome (c : Catalog) (object : ObjectData σ) (loc : Location) :
    TypeExpr → Path → Option Outcome → Watched σ (Option Datum)
  | type, path, none => own (Complete.absent type.nonNull path loc)
  | .named name _, path, some o =>
    match c.type? name with
    | some t => some <$> value t object path loc o
    | none => pure none
  | .list item _, path, some o =>
    match itemsOf? o with
    | some items =>
      (some ∘ Datum.list) <$>
        elements item.nullable path (fun here o => outcome c object loc item here (some o)) 0 items
    | none => own (Complete.fail path loc "internal: expects an array")

end Watched

def handedOn (path : Path) (marks : List (Path × Option ResponseError)) :
    List (Path × ResponseError) :=
  marks.filterMap fun m => if path.isPrefixOf m.1 && path ≠ m.1 then m.2.map fun e => (m.1, e) else none

namespace Execution

variable {σ : Type}

open Watched

-- The invocation of a field, once its arguments are read.
def watchInvocation (x : Execution σ) (type : TypeDef) (parent : Outcome) (here : Path)
    (loc : Location) (object : ObjectData σ) (f : FieldDef) (arguments : Arguments) :
    Watched σ (Option Datum) := fun r =>
  let v : Visit := { place := ⟨here, f.type.nullable, some ⟨type.name, f.name, parent, arguments⟩⟩ }
  match x.declaredField type.name f.name here loc arguments parent r with
  | (.ok o, r') =>
    close { v with handed := handedOn here r'.marks }
      (outcome x.schema.catalog object loc f.type here o r')
  | (.error e, r') => close v ⟨.error (.raised e), r', []⟩

-- It closes what was made of the field's value, or of the error instead.
theorem watchInvocation_close (x : Execution σ) (type : TypeDef) (parent : Outcome)
    (here : Path) (loc : Location) (object : Watched.ObjectData σ) (f : FieldDef)
    (arguments : Arguments) (r : Run σ) :
    ∃ v : Visit, v.place = ⟨here, f.type.nullable, some ⟨type.name, f.name, parent, arguments⟩⟩ ∧
      x.watchInvocation type parent here loc object f arguments r = close v
        (continued (x.declaredField type.name f.name here loc arguments parent r)
          (outcome x.schema.catalog object loc f.type here)) := by
  unfold watchInvocation
  rcases x.declaredField type.name f.name here loc arguments parent r with ⟨e | o, r'⟩
  · exact ⟨_, rfl, rfl⟩
  · exact ⟨{ place := _, handed := handedOn here r'.marks }, rfl, rfl⟩

def watchField (x : Execution σ) (type : TypeDef) (parent : Outcome) (path : Path)
    (head : FieldHead) (object : ObjectData σ) (f : FieldDef) : Watched σ (Option Datum) := do
  let arguments ← own (x.arguments f head)
  x.watchInvocation type parent (path ++ [.field head.key]) head.loc object f arguments

-- The errors that were stopped between two moments.
def stoppedBetween (r r' : Run σ) : List ResponseError :=
  r'.caught.drop r.caught.length ++ r'.absorbed.drop r.absorbed.length

def watchDescription (x : Execution σ) (path : Path) (head : FieldHead) (f : FieldDef)
    (children : List Node) : Watched σ (Option Datum) := fun r =>
  match x.enterDescription path head f children r with
  | (.ok d, r') => ⟨.ok d, r', [.description (stoppedBetween r r') none]⟩
  | (.error e, r') =>
    ⟨.error (.passed e), r', [.description (stoppedBetween r r') (some (Exec.located path e))]⟩

theorem watchDescription_record (x : Execution σ) (path : Path) (head : FieldHead) (f : FieldDef)
    (children : List Node) (r : Run σ) :
    (x.watchDescription path head f children r).run =
      (x.enterDescription path head f children r).2 ∧
    ∃ stopped left, (x.watchDescription path head f children r).seen =
      [.description stopped left] := by
  unfold watchDescription
  rcases x.enterDescription path head f children r with ⟨_ | _, r'⟩
  · exact ⟨rfl, _, _, rfl⟩
  · exact ⟨rfl, _, _, rfl⟩

mutual

def watchSelection (x : Execution σ) (type : TypeDef) (parent : Outcome) (path : Path) :
    Node → Watched σ (List (String × Datum))
  | .group condition _ children =>
    if applies type.name condition then x.watchSelections type parent path children else pure []
  | .field head children =>
    if head.name = "__typename" then pure [(head.key, .string type.name)]
    else match x.entrance? type head.name, type.field? head.name with
      | some f, _ => do
        let d ← x.watchDescription path head f children
        pure [(head.key, d.getD .null)]
      | none, some f => do
        let object : ObjectData σ := fun t o here =>
          Datum.ofResults <$> x.watchSelections t o here children
        let d ← x.watchField type parent path head object f
        pure [(head.key, d.getD .null)]
      | none, none => pure []

def watchSelections (x : Execution σ) (type : TypeDef) (parent : Outcome) (path : Path) :
    List Node → Watched σ (List (String × Datum))
  | [] => pure []
  | n :: rest => do
    let results ← x.watchSelection type parent path n
    let more ← x.watchSelections type parent path rest
    pure (results ++ more)

end

end Execution

-- What is left without the record.
def Watch.erase (w : Watch σ α) : Except ResponseError α × Run σ :=
  (w.result.mapError Fault.error, w.run)

theorem Watch.erase_ok {w : Watch σ α} {a : α} (result : w.result = .ok a) :
    w.erase = (.ok a, w.run) := by
  unfold erase
  rw [result]
  rfl

theorem Watch.erase_error {w : Watch σ α} {fault : Fault} (result : w.result = .error fault) :
    w.erase = (.error fault.error, w.run) := by
  unfold erase
  rw [result]
  rfl

def Records (w : Watched σ α) (x : Exec σ α) : Prop := ∀ r, x r = (w r).erase

namespace Records

open Watched

variable {σ α β : Type}

theorem pure (a : α) : Records (Pure.pure a : Watched σ α) (Pure.pure a) := fun _ => rfl

theorem own (x : Exec σ α) : Records (Watched.own x) x := by
  intro r
  unfold Watched.own
  rcases x r with ⟨_ | _, _⟩ <;> rfl

theorem bind {w : Watched σ α} {x : Exec σ α} {f : α → Watched σ β} {g : α → Exec σ β}
    (first : Records w x) (rest : ∀ a, Records (f a) (g a)) : Records (w >>= f) (x >>= g) := by
  intro r
  rw [bind_apply, first r]
  cases result : (w r).result with
  | ok a =>
    rw [Watch.erase_ok result, bind_of_ok result]
    exact rest a (w r).run
  | error fault =>
    rw [Watch.erase_error result, bind_of_error result]
    rfl

theorem map {w : Watched σ α} {x : Exec σ α} (f : α → β) (records : Records w x) :
    Records (f <$> w) (f <$> x) := by
  have unfolded : f <$> x = x >>= fun a => Pure.pure (f a) := map_eq_pure_bind f x
  rw [unfolded]
  exact records.bind fun a => .pure (f a)

theorem close (v : Visit) (w : Watch σ (Option Datum)) :
    (Watched.close v w).erase = match w.erase with
      | (.ok d, r) => (.ok d, r)
      | (.error e, r) => Exec.absorb v.place.path v.place.nullable e r := by
  unfold Watched.close Watch.erase
  cases w.result with
  | ok d => rfl
  | error fault =>
    unfold Exec.absorb
    simp only
    cases v.place.nullable <;> rfl

theorem element (path : Path) (nullable : Bool) {w : Watched σ (Option Datum)}
    {x : Exec σ (Option Datum)} (records : Records w x) :
    Records (Watched.element path nullable w) (Exec.element path nullable x) := by
  intro r
  unfold Watched.element Exec.element
  rw [bind_apply, lift_apply]
  rcases Exec.takeMark path r with ⟨_ | _ | e, r'⟩
  · change Exec.guard path nullable x r' = (Watched.close _ (w r')).erase
    rw [close, ← records r']
    unfold Exec.guard
    rcases x r' with ⟨_ | _, _⟩ <;> rfl
  · cases nullable <;> rfl
  · cases nullable <;> rfl

theorem elements (nullable : Bool) (path : Path)
    {body : Path → Outcome → Watched σ (Option Datum)}
    {body' : Path → Outcome → Exec σ (Option Datum)}
    (records : ∀ here o, Records (body here o) (body' here o)) (os : List Outcome) (index : Nat) :
    Records (Watched.elements nullable path body index os)
      (Complete.elements nullable path body' index os) := by
  induction os generalizing index with
  | nil => exact pure _
  | cons o rest ih =>
    refine bind (element _ nullable (records _ o)) fun d => ?_
    exact bind (ih (index + 1)) fun ds => pure _

section

variable {object : Watched.ObjectData σ} {object' : Complete.ObjectData σ}
  (records : ∀ t o here, Records (object t o here) (object' t o here))

include records

theorem value (t : TypeDef) (path : Path) (loc : Location) (o : Outcome) :
    Records (Watched.value t object path loc o) (Complete.value t object' path loc o) := by
  cases body : t.body with
  | object fields =>
    simp only [Watched.value, Complete.value, body]
    exact records t o path
  | _ =>
    simp only [Watched.value, Complete.value, body]
    exact own _

theorem outcome (c : Catalog) (loc : Location) (type : TypeExpr) (path : Path) (o : Option Outcome) :
    Records (Watched.outcome c object loc type path o)
      (Complete.outcome c object' loc type path o) := by
  induction type generalizing path o with
  | named name nonNull =>
    cases o with
    | none => exact own _
    | some o =>
      simp only [Watched.outcome, Complete.outcome]
      cases c.type? name with
      | none => exact pure _
      | some t => exact map _ (value records t path loc o)
  | list item nonNull ih =>
    cases o with
    | none => exact own _
    | some o =>
      have each (os : List Outcome) := map (some ∘ Datum.list)
        (elements item.nullable path (fun here o => ih here (some o)) os 0)
      simp only [Watched.outcome, Complete.outcome]
      cases o with
      | row row => exact own _
      | list os => exact each os
      | leaf d =>
        cases d with
        | list ds => exact each (ds.map .leaf)
        | _ => exact own _

theorem invocation (x : Execution σ) (type : TypeDef) (parent : Outcome) (here : Path)
    (loc : Location) (f : FieldDef) (arguments : Arguments) :
    Records (x.watchInvocation type parent here loc object f arguments)
      (Exec.guard here f.type.nullable do
        let o ← x.declaredField type.name f.name here loc arguments parent
        Complete.outcome x.schema.catalog object' loc f.type here o) := by
  intro r
  unfold Execution.watchInvocation Exec.guard
  rw [bind_apply]
  rcases x.declaredField type.name f.name here loc arguments parent r with ⟨e | o, r'⟩
  · rw [close]
    rfl
  · simp only
    rw [close, ← outcome records x.schema.catalog loc f.type here o r']
    rcases Complete.outcome x.schema.catalog object' loc f.type here o r' with ⟨_ | _, _⟩ <;> rfl

theorem field (x : Execution σ) (type : TypeDef) (parent : Outcome) (path : Path)
    (head : FieldHead) (f : FieldDef) :
    Records (x.watchField type parent path head object f)
      (x.field type parent path head object' f) :=
  bind (own _) fun arguments => invocation records x type parent _ head.loc f arguments

end

theorem description (x : Execution σ) (path : Path) (head : FieldHead) (f : FieldDef)
    (children : List Node) :
    Records (x.watchDescription path head f children) (x.enterDescription path head f children) := by
  intro r
  unfold Execution.watchDescription
  rcases x.enterDescription path head f children r with ⟨_ | _, _⟩ <;> rfl

mutual

theorem selection (x : Execution σ) (type : TypeDef) (parent : Outcome) (path : Path) : ∀ n : Node,
    Records (x.watchSelection type parent path n) (x.selection type parent path n)
  | .group condition _ children => by
    rw [Execution.watchSelection, Execution.selection]
    split
    · exact selections x type parent path children
    · exact pure _
  | .field head children => by
    rw [Execution.watchSelection, Execution.selection]
    split
    · exact pure _
    · cases x.entrance? type head.name with
      | some f => exact bind (description x path head f children) fun d => pure _
      | none =>
        cases type.field? head.name with
        | none => exact pure _
        | some f =>
          refine bind (field (fun t o here => ?_) x type parent path head f) fun d => pure _
          exact map _ (selections x t o here children)

theorem selections (x : Execution σ) (type : TypeDef) (parent : Outcome) (path : Path) :
    ∀ nodes : List Node,
    Records (x.watchSelections type parent path nodes) (x.selections type parent path nodes)
  | [] => by
    rw [Execution.watchSelections, Execution.selections]
    exact pure _
  | n :: rest => by
    rw [Execution.watchSelections, Execution.selections]
    refine bind (selection x type parent path n) fun results => ?_
    exact bind (selections x type parent path rest) fun more => pure _

end

end Records

-- The response of an operation, by what was seen of it.
def Watch.response (w : Watch σ (List (String × Datum))) : Response :=
  match w.result with
  | .ok results => ⟨Datum.ofResults results, w.run.caught ++ w.run.absorbed⟩
  | .error fault => ⟨.null, fault.error :: (w.run.caught ++ w.run.absorbed)⟩

namespace Execution

variable {σ : Type}

def watch (x : Execution σ) (root : TypeDef) (nodes : List Node) (store : σ) :
    Watch σ (List (String × Datum)) := x.watchSelections root .root [] nodes { store }

theorem run_watch (x : Execution σ) (root : TypeDef) (nodes : List Node) (store : σ) :
    x.run root nodes store = ((x.watch root nodes store).response, (x.watch root nodes store).run) := by
  unfold run
  have same : (x.selections root .root [] nodes).run { store } =
      (x.watch root nodes store).erase := Records.selections x root .root [] nodes { store }
  rw [same]
  unfold Watch.erase Watch.response
  cases (x.watch root nodes store).result <;> rfl

end Execution

-- What a request does, if it comes to be run.
def Schema.watch? (s : Schema) (b : Backend σ) (request : Request) (store : σ) :
    Option (Watch σ (List (String × Datum))) :=
  (request.prepare s).toOption.bind fun m =>
    ((s.catalog.root? m.operation.kind).bind s.catalog.type?).map fun root =>
      (⟨s, b, m.operation.variableDefs, request.values⟩ : Execution σ).watch root m.nodes store

end RowGraph
