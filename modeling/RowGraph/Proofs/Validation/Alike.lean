import RowGraph.Execution.Request
import RowGraph.Proofs.Schema.Agreement
/-!
Validation against catalogs that agree on the names that a request meets. What is found at a node
depends on the catalog through the types that the names at the node stand for. Main statements: a
request that meets no other names is found to have the same errors; schemas that are alike prepare a
request in the same way, or turn it down for the same reasons.
-/

namespace RowGraph

namespace Catalog.Agrees

variable {known : String → Prop} {c c' : Catalog} (same : c.Agrees known c')

include same

theorem leafReason {type : String} (named : known type) (path : String) (d : Datum) :
    c'.leafReason type path d = c.leafReason type path d := by
  unfold Catalog.leafReason
  rw [same.type? type named]

theorem inputFields {type : String} (named : known type) :
    c'.inputFields type = c.inputFields type := by
  unfold Catalog.inputFields
  rw [same.type? type named]

theorem inputs {type : String} (named : known type) {fields : List InputDef}
    (declared : c.inputFields type = some fields) : ∀ f ∈ fields, known f.type.name := by
  obtain ⟨t, found, declared⟩ := Option.bind_eq_some_iff.mp declared
  exact (same.within type t named found).inputs declared

end Catalog.Agrees

mutual

theorem Catalog.Agrees.inputReason {known : String → Prop} {c c' : Catalog}
    (same : c.Agrees known c') (type : TypeExpr) (named : known type.name) (path : String) :
    ∀ d, c'.inputReason type path d = c.inputReason type path d
  | .null => rfl
  | .bool b => by unfold Catalog.inputReason; rw [same.leafReason named]
  | .number n => by unfold Catalog.inputReason; rw [same.leafReason named]
  | .string s => by unfold Catalog.inputReason; rw [same.leafReason named]
  | .enum v => by unfold Catalog.inputReason; rw [same.leafReason named]
  | .binary bytes => by unfold Catalog.inputReason; rw [same.leafReason named]
  | .list items => by
    unfold Catalog.inputReason
    cases type with
    | named name nonNull =>
      change known name at named
      simp only [same.leafReason named]
    | list item nonNull => exact same.itemsReason item named path 0 items
  | .object members => by
    unfold Catalog.inputReason
    rw [same.inputFields named, same.leafReason named]
    cases declared : c.inputFields type.name with
    | none => rfl
    | some fields => simp only [same.memberVerdicts fields (same.inputs named declared) path members]

theorem Catalog.Agrees.itemsReason {known : String → Prop} {c c' : Catalog}
    (same : c.Agrees known c') (item : TypeExpr) (named : known item.name) (path : String)
    (index : Nat) :
    ∀ items, c'.itemsReason item path index items = c.itemsReason item path index items
  | [] => rfl
  | d :: rest => by
    unfold Catalog.itemsReason
    rw [same.inputReason item named _ d, same.itemsReason item named path (index + 1) rest]

theorem Catalog.Agrees.memberVerdicts {known : String → Prop} {c c' : Catalog}
    (same : c.Agrees known c') (fields : List InputDef) (named : ∀ f ∈ fields, known f.type.name)
    (path : String) :
    ∀ members, c'.memberVerdicts fields path members = c.memberVerdicts fields path members
  | [] => rfl
  | (name, d) :: rest => by
    unfold Catalog.memberVerdicts
    rw [same.memberVerdicts fields named path rest]
    cases found : fields.find? fun f => f.name = name with
    | none => rfl
    | some f =>
      simp only [same.inputReason f.type (named f (List.mem_of_find?_eq_some found)) _ d]

end

-- The names that are met in a selection. Nothing is looked at inside of the name of a type.
mutual

def Selection.Within (known : String → Prop) : Selection → Prop
  | .field head _ selections =>
    head.name = "__typename" ∨ Catalog.Enters known head.name ∧ WithinAll known selections
  | .spread _ _ _ => True
  | .inline condition _ _ _ selections =>
    (∀ name, condition = some name → known name) ∧ WithinAll known selections

def Selection.WithinAll (known : String → Prop) : List Selection → Prop
  | [] => True
  | s :: rest => s.Within known ∧ WithinAll known rest

end

structure FragmentDef.Within (known : String → Prop) (f : FragmentDef) : Prop where
  condition : known f.condition
  selections : Selection.WithinAll known f.selections

structure OperationDef.Within (known : String → Prop) (o : OperationDef) : Prop where
  declared : ∀ v ∈ o.variableDefs, known v.type.name
  selections : Selection.WithinAll known o.selections

structure Query.Within (known : String → Prop) (q : Query) : Prop where
  fragments : ∀ f ∈ q.fragments, f.Within known
  operations : ∀ o ∈ q.operations, o.Within known

mutual

theorem Selection.within_all {known : String → Prop} (all : ∀ name, known name) :
    ∀ s : Selection, s.Within known
  | .field _ _ selections => .inr ⟨fun _ _ _ _ _ => all _, Selection.withinAll_all all selections⟩
  | .spread _ _ _ => trivial
  | .inline _ _ _ _ selections => ⟨fun name _ => all name, Selection.withinAll_all all selections⟩

theorem Selection.withinAll_all {known : String → Prop} (all : ∀ name, known name) :
    ∀ selections, Selection.WithinAll known selections
  | [] => trivial
  | s :: rest => ⟨Selection.within_all all s, Selection.withinAll_all all rest⟩

end

theorem Query.within_all {known : String → Prop} (all : ∀ name, known name) (q : Query) :
    q.Within known where
  fragments _ _ := ⟨all _, Selection.withinAll_all all _⟩
  operations _ _ := ⟨fun _ _ => all _, Selection.withinAll_all all _⟩

namespace Validation

-- Contexts of one request against catalogs that agree on what its fragments are conditioned on.
structure Context.Agrees (known : String → Prop) (ctx ctx' : Context) : Prop where
  catalog : ctx.catalog.Agrees known ctx'.catalog
  query : ctx'.query = ctx.query
  values : ctx'.values = ctx.values
  fragments : ∀ f ∈ ctx.query.fragments, f.Within known

namespace Context.Agrees

variable {known : String → Prop} {ctx ctx' : Context} (same : ctx.Agrees known ctx')

include same

theorem valueErrors {inputs : List InputDef} (named : ∀ d ∈ inputs, known d.type.name)
    (a : Argument) : Validation.valueErrors ctx' inputs a = Validation.valueErrors ctx inputs a := by
  unfold Validation.valueErrors
  simp only [same.values]
  split
  · rename_i d v found _
    rw [same.catalog.inputReason d.type (named d (List.mem_of_find?_eq_some found))]
  · rfl

theorem argumentFindings (owned : Owned) {inputs : List InputDef}
    (named : ∀ d ∈ inputs, known d.type.name) (before : List String) (arguments : List Argument) :
    Validation.argumentFindings ctx' owned inputs before arguments =
      Validation.argumentFindings ctx owned inputs before arguments := by
  induction arguments generalizing before with
  | nil => rfl
  | cons a rest ih =>
    unfold Validation.argumentFindings
    rw [same.valueErrors named, ih]

theorem directivesFindings (site : DirectiveSite) (directives : List DirectiveCall) :
    Validation.directivesFindings ctx' site directives =
      Validation.directivesFindings ctx site directives := by
  have one (d : DirectiveCall) :
      Validation.directiveFindings ctx' site d = Validation.directiveFindings ctx site d := by
    unfold Validation.directiveFindings
    split
    · rw [same.argumentFindings none (by simp)]
    · rename_i directive found
      have scalar := KnownDirective.arguments_scalar directive (List.mem_of_find?_eq_some found)
      rw [same.argumentFindings _ fun a member => same.catalog.scalars _ (scalar a member)]
  induction directives with
  | nil => rfl
  | cons d rest ih =>
    unfold Validation.directivesFindings
    rw [one, ih]

theorem fieldSite {parent : Option TypeDef} (within : ∀ t, parent = some t → t.Within known)
    {name : String} (enters : Catalog.Enters known name) :
    FieldSite.of ctx'.catalog parent name = FieldSite.of ctx.catalog parent name ∧
      (∀ f, (FieldSite.of ctx.catalog parent name).field = some f → f.Within known) ∧
      ∀ t, (FieldSite.of ctx.catalog parent name).type = some t → t.Within known := by
  have field f (found : (parent.bind fun t => ctx.catalog.field? t name) = some f) :
      f.Within known := by
    obtain ⟨t, rfl, found⟩ := Option.bind_eq_some_iff.mp found
    exact enters.field (within t rfl) found
  refine ⟨?_, field, fun t found => ?_⟩
  · unfold FieldSite.of
    rw [same.catalog.field?]
    cases declared : parent.bind fun t => ctx.catalog.field? t name with
    | none => rfl
    | some f =>
      simp only [Option.bind_some]
      rw [same.catalog.type? _ (field f declared).type]
  · obtain ⟨f, declared, found⟩ := Option.bind_eq_some_iff.mp found
    exact same.catalog.within _ t (field f declared).type found

theorem fieldFindings {site : FieldSite} (within : ∀ f, site.field = some f → f.Within known)
    (owned : Owned) (head : FieldHead) (inside : Bool) :
    Validation.fieldFindings ctx' site owned head inside =
      Validation.fieldFindings ctx site owned head inside := by
  have named : ∀ d ∈ (site.field.map (·.arguments)).getD [], known d.type.name := by
    cases declared : site.field with
    | none => simp
    | some f => exact (within f declared).argument
  unfold Validation.fieldFindings
  simp only [same.argumentFindings _ named, same.directivesFindings]

theorem spreadFindings (current : Option TypeDef) (name : String) (directives : List DirectiveCall)
    (loc : Location) : Validation.spreadFindings ctx' current name directives loc =
      Validation.spreadFindings ctx current name directives loc := by
  unfold Validation.spreadFindings
  simp only [same.query, same.directivesFindings]
  cases spread : ctx.query.fragment? name with
  | none => cases current <;> rfl
  | some f =>
    have named := (same.fragments f (List.mem_of_find?_eq_some spread)).condition
    cases current with
    | none => rfl
    | some t => simp only [same.catalog.type? _ named]

theorem inlineFindings (current : Option TypeDef) {condition : Option String}
    (named : ∀ name, condition = some name → known name) (directives : List DirectiveCall)
    (loc : Location) :
    Validation.inlineFindings ctx' current condition directives loc =
      Validation.inlineFindings ctx current condition directives loc := by
  unfold Validation.inlineFindings
  cases condition with
  | none => simp only [same.directivesFindings]
  | some name => simp only [same.catalog.type? name (named name rfl), same.directivesFindings]

end Context.Agrees

mutual

theorem Context.Agrees.walkOne {known : String → Prop} {ctx ctx' : Context}
    (same : ctx.Agrees known ctx') (current : Option TypeDef)
    (within : ∀ t, current = some t → t.Within known) (owned : Owned) :
    ∀ s : Selection, s.Within known →
      Validation.walkOne ctx' current owned s = Validation.walkOne ctx current owned s
  | .field head loc selections, met => by
    unfold Validation.walkOne
    by_cases name : head.name = "__typename"
    · rw [if_pos name, if_pos name]
    · obtain ⟨enters, inside⟩ := met.resolve_left name
      obtain ⟨site, field, type⟩ := same.fieldSite within enters
      rw [if_neg name, if_neg name]
      simp only [site, same.walkAll _ type _ selections inside, same.fieldFindings field, same.query]
  | .spread name directives loc, _ => by
    unfold Validation.walkOne
    rw [same.spreadFindings]
  | .inline condition directives loc brace selections, ⟨named, inside⟩ => by
    unfold Validation.walkOne
    cases condition with
    | none =>
      simp only [same.walkAll current within _ selections inside, same.inlineFindings current named,
        same.query]
    | some name =>
      have on := named name rfl
      simp only [same.catalog.type? name on, same.inlineFindings current named, same.query,
        same.walkAll _ (fun t => same.catalog.within name t on) _ selections inside]

theorem Context.Agrees.walkAll {known : String → Prop} {ctx ctx' : Context}
    (same : ctx.Agrees known ctx') (current : Option TypeDef)
    (within : ∀ t, current = some t → t.Within known) (owned : Owned) :
    ∀ selections, Selection.WithinAll known selections →
      Validation.walkAll ctx' current owned selections =
        Validation.walkAll ctx current owned selections
  | [], _ => rfl
  | s :: rest, ⟨first, others⟩ => by
    unfold Validation.walkAll
    simp only [same.walkOne current within owned s first,
      same.walkAll current within _ rest others]

end

namespace Context.Agrees

variable {known : String → Prop} {ctx ctx' : Context} (same : ctx.Agrees known ctx')

include same

theorem walkSet {current : Option TypeDef} (within : ∀ t, current = some t → t.Within known)
    {selections : List Selection} (met : Selection.WithinAll known selections) :
    Validation.walkSet ctx' current selections = Validation.walkSet ctx current selections := by
  unfold Validation.walkSet
  rw [same.query, same.walkAll current within none selections met]

theorem fragmentFindings {f : FragmentDef} (met : f.Within known) :
    Validation.fragmentFindings ctx' f = Validation.fragmentFindings ctx f := by
  unfold Validation.fragmentFindings
  simp only [same.catalog.type? _ met.condition, same.directivesFindings,
    same.walkSet (fun t => same.catalog.within _ t met.condition) met.selections]

theorem variablesErrors (before : List String) {defs : List VariableDef}
    (named : ∀ v ∈ defs, known v.type.name) :
    Validation.variablesErrors ctx' before defs = Validation.variablesErrors ctx before defs := by
  induction defs generalizing before with
  | nil => rfl
  | cons v rest ih =>
    have first := named v List.mem_cons_self
    have reasons :
        ctx'.catalog.inputReason v.type v.name = ctx.catalog.inputReason v.type v.name :=
      funext (same.catalog.inputReason v.type first v.name)
    unfold Validation.variablesErrors Validation.variableErrors
    simp only [same.catalog.type? _ first, reasons,
      ih _ fun w member => named w (List.mem_cons_of_mem _ member)]

theorem uploadErrors {o : OperationDef} (named : ∀ v ∈ o.variableDefs, known v.type.name) :
    Validation.uploadErrors ctx' o = Validation.uploadErrors ctx o := by
  unfold Validation.uploadErrors
  refine List.flatMap_congr fun v member => ?_
  rw [same.catalog.type? _ (named v member)]

theorem operationFindings {o : OperationDef} (met : o.Within known) :
    Validation.operationFindings ctx' o = Validation.operationFindings ctx o := by
  unfold Validation.operationFindings
  rw [same.uploadErrors met.declared, same.catalog.root?]
  cases root : ctx.catalog.root? o.kind with
  | none => rfl
  | some name =>
    have named := same.catalog.roots o.kind name root
    simp only [same.catalog.type? name named, same.variablesErrors [] met.declared,
      same.directivesFindings, same.walkSet (fun t => same.catalog.within name t named) met.selections]

theorem errors (met : ctx.query.Within known) : Validation.errors ctx' = Validation.errors ctx := by
  have surveyed : Validation.survey ctx' = Validation.survey ctx := by
    unfold Validation.survey
    rw [same.query, same.catalog.root?, Survey.mk.injEq]
    refine ⟨List.map_congr_left fun f member => ?_, List.map_congr_left fun o member => ?_⟩
    · rw [same.fragmentFindings (met.fragments f member)]
    · rw [same.operationFindings (met.operations o member)]
  unfold Validation.errors
  rw [surveyed]

end Context.Agrees

end Validation

-- A request is prepared in the same way by schemas that agree on the names that it meets.
theorem Catalog.Agrees.prepare {known : String → Prop} {s s' : Schema}
    (same : s.catalog.Agrees known s'.catalog) (settings : s'.settings = s.settings) (r : Request)
    (met : ∀ q, Query.read? r.source = some q → q.Within known) : r.prepare s' = r.prepare s := by
  have limits : Request.checkLimits s' = Request.checkLimits s := by
    funext all
    unfold Request.checkLimits
    rw [same.root?, settings]
  unfold Request.prepare
  cases read : Query.read? r.source with
  | none => simp only [bind, Except.bind]
  | some q =>
    have within := met q read
    have contexts : Validation.Context.Agrees known ⟨s.catalog, q, r.values⟩
        ⟨s'.catalog, q, r.values⟩ := ⟨same, rfl, rfl, within.fragments⟩
    have rules : Request.checkRules ⟨s'.catalog, q, r.values⟩ =
        Request.checkRules ⟨s.catalog, q, r.values⟩ := by
      unfold Request.checkRules
      rw [contexts.errors within]
    simp only [bind, Except.bind, limits, rules]

theorem Schema.Alike.prepare {s s' : Schema} (same : s.Alike s') (r : Request) :
    r.prepare s' = r.prepare s :=
  same.catalog.agrees.prepare same.settings r fun q _ => Query.within_all (fun _ => trivial) q

end RowGraph
