import RowGraph.Proofs.Tandem.Findings
/-!
The walk over a request in which ids have other forms. The walk knows the type of an object wherever
ids in other forms are allowed in the arguments of its fields, so it asks for an id there, too. Main
statement: an operation, and a fragment, has the same findings.
-/

namespace RowGraph

open Validation

namespace Schema

variable {s : Schema}

-- Beside the entrances to the description a type has the fields that it declares.
theorem field?_declared {t : TypeDef} {field : String} (own : s.enters t field = false) :
    s.catalog.field? t field = t.field? field := by
  have none : (s.catalog.entrances t).find? (fun f => f.name = field) = none := by
    refine List.find?_eq_none.mpr fun f member named => ?_
    cases own.symm.trans (List.any_eq_true.mpr ⟨f, member, named⟩)
  unfold Catalog.field?
  rw [none]
  rfl

-- The walk goes where the types of the objects go.
theorem inside_walked {on current : Option TypeDef} (here : ∀ t, on = some t → current = some t)
    (field : String) : ∀ t, s.inside on field = some t →
      (FieldSite.of s.catalog current field).type = some t := by
  intro t inside
  obtain ⟨parent, same, inside⟩ := Option.bind_eq_some_iff.mp inside
  by_cases aside : s.enters parent field = true
  · rw [if_pos aside] at inside
    cases inside
  · rw [if_neg aside] at inside
    unfold FieldSite.of
    rw [here parent same, Option.bind_some, field?_declared (eq_false_of_ne_true aside)]
    exact inside

theorem under_walked {on current : Option TypeDef} (here : ∀ t, on = some t → current = some t)
    (condition : Option String) : ∀ t, s.under on condition = some t →
      (match condition with
        | some name => s.catalog.type? name
        | none => current) = some t := by
  intro t under
  cases condition with
  | none => exact here t under
  | some name =>
    unfold Schema.under at under
    dsimp only at under ⊢
    split at under
    · cases under
    · exact under

end Schema

namespace Rewriting

variable {s : Schema} {w : Rewriting}

theorem sites_fitted {on current : Option TypeDef} (here : ∀ t, on = some t → current = some t)
    {field : String} {a a' : Argument} (same : s.SiteRewritten w.forms on field a a') :
    w.Fitted s (((FieldSite.of s.catalog current field).field.map (·.arguments)).getD []) a a' := by
  obtain ⟨f, site, same⟩ := same
  refine ⟨f, fun d found => ?_, same⟩
  cases site with
  | plain => trivial
  | reads there reads fits =>
    obtain ⟨t, type, sited⟩ := Schema.site?_sited there
    have shown : (FieldSite.of s.catalog current field).field = t.field? field := by
      unfold FieldSite.of
      rw [here t type, Option.bind_some, Schema.field?_declared sited.own]
    rw [shown] at found
    cases declared : t.field? field with
    | none =>
      rw [declared] at found
      cases found
    | some known =>
      rw [declared] at found
      refine fits t d type ?_
      rw [TypeDef.argument?, declared]
      exact found

theorem fieldFindings_like (grounded : s.Grounded) (keeps : w.Keeps s) {on current : Option TypeDef}
    (here : ∀ t, on = some t → current = some t) (owned : Owned) {head head' : FieldHead}
    (same : FieldHead.Rewritten s w.forms on head head') (hasSelections : Bool) :
    (fieldFindings (w.context s) (.of s.catalog current head.name) owned head hasSelections).Like
      (fieldFindings (w.context' s) (.of s.catalog current head.name) owned head' hasSelections) := by
  have names := same.named.arguments
  have arguments : List.Forall₂
      (w.Fitted s (((FieldSite.of s.catalog current head.name).field.map (·.arguments)).getD []))
      head.arguments head'.arguments :=
    same.arguments.imp fun a a' one => sites_fitted here one
  generalize FieldSite.of s.catalog current head.name = site at arguments ⊢
  have required : Told (requiredErrors site head) (requiredErrors site head') := by
    unfold requiredErrors
    split
    · rw [required_named names, same.name]
      exact reports_told _ _ _ _
    · exact .nil
  have leaves : Told (leafErrors site head hasSelections) (leafErrors site head' hasSelections) := by
    unfold leafErrors
    rw [same.name]
    split
    · exact .nil
    · split
      · exact when_told _ _ _ _
      · exact when_told _ _ _ _
  have unknown : Told (unknownFieldErrors site head) (unknownFieldErrors site head') := by
    have marked : head'.directives.any (fun d => d.name = optionalMark) =
        head.directives.any fun d => d.name = optionalMark :=
      any_forall₂ same.directives fun d d' one => by rw [one.name]
    unfold unknownFieldErrors
    rw [same.name, marked]
    split
    · exact when_told _ _ _ _
    · exact .nil
  refine ((Findings.Like.ofErrors ?_).append (w.argumentFindings_like grounded keeps owned arguments
    [])).append (w.directivesFindings_like grounded keeps .field same.directives)
  exact List.rel_append (List.rel_append (List.rel_append
    (repeatedDirectives_told same.directives []) required) leaves) unknown

theorem spreadFindings_like (grounded : s.Grounded) (keeps : w.Keeps s) (current : Option TypeDef)
    (name : String) {ds ds' : List DirectiveCall}
    (directives : List.Forall₂ (DirectiveCall.Rewritten w.forms) ds ds') (loc loc' : Location) :
    (spreadFindings (w.context s) current name ds loc).Like
      (spreadFindings (w.context' s) current name ds' loc') := by
  have found := keeps.fragment? name
  unfold spreadFindings
  refine ((Findings.Like.ofErrors (List.rel_append (List.rel_append
    (repeatedDirectives_told directives []) ?_) ?_)).append (.ofSpread _ _ _)).append
    (w.directivesFindings_like grounded keeps .fragmentSpread directives)
  · dsimp only [context, context']
    generalize w.before.fragment? name = f at found ⊢
    generalize w.after.fragment? name = f' at found ⊢
    cases current with
    | none => exact .nil
    | some t =>
      cases found with
      | none => exact .nil
      | some same =>
        dsimp only
        rw [same.condition]
        split
        · exact when_told _ _ _ _
        · exact .nil
  · dsimp only [context, context']
    generalize w.before.fragment? name = f at found ⊢
    generalize w.after.fragment? name = f' at found ⊢
    cases found with
    | none => exact when_told _ _ _ _
    | some _ => exact when_told _ _ _ _

theorem inlineFindings_like (grounded : s.Grounded) (keeps : w.Keeps s) (current : Option TypeDef)
    (condition : Option String) {ds ds' : List DirectiveCall}
    (directives : List.Forall₂ (DirectiveCall.Rewritten w.forms) ds ds') (loc loc' : Location) :
    (inlineFindings (w.context s) current condition ds loc).Like
      (inlineFindings (w.context' s) current condition ds' loc') := by
  unfold inlineFindings
  refine (Findings.Like.ofErrors (List.rel_append (repeatedDirectives_told directives []) ?_)).append
    (w.directivesFindings_like grounded keeps .inlineFragment directives)
  dsimp only [context, context']
  cases condition with
  | none =>
    cases current with
    | none => exact .nil
    | some t => exact when_told _ _ _ _
  | some name =>
    dsimp only
    cases s.catalog.type? name with
    | none => exact report_told _ _ _
    | some on =>
      refine List.rel_append ?_ (when_told _ _ _ _)
      cases current with
      | none => exact .nil
      | some t => exact when_told _ _ _ _

theorem afterDirectives_same {forms : String → Form} {ds ds' : List DirectiveCall}
    (directives : List.Forall₂ (DirectiveCall.Rewritten forms) ds ds') (owned : Owned) :
    afterDirectives owned ds' = afterDirectives owned ds := by
  cases directives with
  | nil => rfl
  | cons _ _ => rfl

-- The findings, and what is known of the arguments that come next.
def WalkLike (found found' : Findings × Owned) : Prop := found.1.Like found'.1 ∧ found'.2 = found.2

mutual

theorem walkOne_like (grounded : s.Grounded) (keeps : w.Keeps s) : ∀ {on current : Option TypeDef}
    {sel sel' : Selection}, (∀ t, on = some t → current = some t) → ∀ owned : Owned,
    Selection.Rewritten s w on sel sel' →
    WalkLike (walkOne (w.context s) current owned sel) (walkOne (w.context' s) current owned sel')
  | _, current, _, _, here, owned,
      @Selection.Rewritten.field _ _ _ head _ _ _ _ _ heads inside written => by
    unfold walkOne
    rw [heads.name, inside.isEmpty]
    split
    · exact ⟨.empty, rfl⟩
    · have deeper := walkAll_like grounded keeps (Schema.inside_walked here head.name)
        (afterDirectives ((FieldSite.of s.catalog current head.name).owned head.name owned)
          head.directives) inside
      dsimp only
      rw [afterDirectives_same heads.directives]
      refine ⟨Findings.Like.append (.append ?_ (.ofErrors ?_)) deeper.1, rfl⟩
      · exact w.fieldFindings_like grounded keeps here _ heads _
      · exact w.overlapErrors_told keeps inside written
  | _, current, _, _, _, owned, @Selection.Rewritten.spread _ _ _ name _ _ _ _ calls _ => by
    unfold walkOne
    rw [afterDirectives_same calls]
    exact ⟨w.spreadFindings_like grounded keeps current name calls _ _, rfl⟩
  | _, current, _, _, here, owned,
      @Selection.Rewritten.inline _ _ _ condition directives _ _ _ _ _ _ _ calls inside written => by
    have deeper := walkAll_like grounded keeps (Schema.under_walked here condition)
      (afterDirectives owned directives) inside
    unfold walkOne
    rw [afterDirectives_same calls]
    refine ⟨Findings.Like.append (.append ?_ (.ofErrors ?_)) deeper.1, deeper.2⟩
    · exact w.inlineFindings_like grounded keeps current condition calls _ _
    · exact w.overlapErrors_told keeps inside written

theorem walkAll_like (grounded : s.Grounded) (keeps : w.Keeps s) : ∀ {on current : Option TypeDef}
    {all all' : List Selection}, (∀ t, on = some t → current = some t) → ∀ owned : Owned,
    Selection.AllRewritten s w on all all' →
    WalkLike (walkAll (w.context s) current owned all) (walkAll (w.context' s) current owned all')
  | _, _, _, _, _, _, .nil => ⟨.empty, rfl⟩
  | _, current, _, _, here, owned, @Selection.AllRewritten.cons _ _ _ sel _ _ _ first more => by
    have one := walkOne_like grounded keeps here owned first
    have others := walkAll_like grounded keeps here (walkOne (w.context s) current owned sel).2 more
    unfold walkAll
    dsimp only
    rw [one.2]
    exact ⟨one.1.append others.1, others.2⟩

end

theorem walkSet_like (grounded : s.Grounded) (keeps : w.Keeps s) {on current : Option TypeDef}
    (here : ∀ t, on = some t → current = some t) {all all' : List Selection}
    (selections : Selection.AllRewritten s w on all all')
    (written : repeats w.after all' = repeats w.before all) :
    (walkSet (w.context s) current all).Like (walkSet (w.context' s) current all') :=
  (Findings.Like.ofErrors (w.overlapErrors_told keeps selections written)).append
    (w.walkAll_like grounded keeps here none selections).1

theorem fragmentFindings_like (grounded : s.Grounded) (keeps : w.Keeps s) {f f' : FragmentDef}
    (same : FragmentDef.Rewritten s w f f') :
    (fragmentFindings (w.context s) f).Like (fragmentFindings (w.context' s) f') := by
  unfold fragmentFindings
  dsimp only [context, context']
  rw [same.name, same.condition]
  refine ((Findings.Like.ofErrors (List.rel_append (repeatedDirectives_told same.directives [])
    ?_)).append (w.directivesFindings_like grounded keeps .fragmentDefinition same.directives)).append
    (w.walkSet_like grounded keeps (fun _ here => here) same.selections same.repeats)
  cases s.catalog.type? f.condition with
  | none => exact report_told _ _ _
  | some t => exact when_told _ _ _ _

theorem variableErrors_told (grounded : s.Grounded) (before : List String) {v v' : VariableDef}
    (same : VariableDef.Rewritten s.catalog w.forms v v') :
    Told (variableErrors (w.context s) before v) (variableErrors (w.context' s) before v') := by
  have unfit : v'.fallback.bind (s.catalog.inputReason v.type v.name) =
      v.fallback.bind (s.catalog.inputReason v.type v.name) := by
    obtain equal | ⟨fits, fallback⟩ := same.fallback
    · rw [equal]
    · generalize v.fallback = d at fallback ⊢
      generalize v'.fallback = d' at fallback ⊢
      cases fallback with
      | none => rfl
      | some rewritten => exact grounded.rewritten_reason rewritten v.type v.name fits
  unfold variableErrors
  dsimp only [context, context']
  rw [same.name, same.type, unfit]
  have unknown := when_told (s.catalog.type? v.type.name).isNone v.loc v'.loc
    ("Unknown type \"" ++ v.type.name ++ "\"")
  refine List.rel_append (List.rel_append (List.rel_append (List.rel_append
    (repeatedDirectives_told same.directives []) ?_) (when_told _ _ _ _)) unknown) ?_
  · cases s.catalog.type? v.type.name with
    | none => exact .nil
    | some t => exact when_told _ _ _ _
  · have fallback : Told
        (match v.fallback.bind (s.catalog.inputReason v.type v.name) with
          | some reason => [report [v.loc] ("Invalid default value for argument: " ++ reason)]
          | none => [])
        (match v.fallback.bind (s.catalog.inputReason v.type v.name) with
          | some reason => [report [v'.loc] ("Invalid default value for argument: " ++ reason)]
          | none => []) := by
      split
      · exact report_told _ _ _
      · exact .nil
    cases v.type.isList with
    | true => exact fallback
    | false =>
      unfold when
      cases (s.catalog.type? v.type.name).isNone with
      | true => exact report_told _ _ _
      | false => exact fallback

theorem variablesErrors_told (grounded : s.Grounded) {defs defs' : List VariableDef}
    (same : List.Forall₂ (VariableDef.Rewritten s.catalog w.forms) defs defs') (before : List String) :
    Told (variablesErrors (w.context s) before defs) (variablesErrors (w.context' s) before defs') := by
  induction same generalizing before with
  | nil => exact .nil
  | cons one _ ih =>
    unfold variablesErrors
    rw [one.name]
    exact List.rel_append (w.variableErrors_told grounded before one) (ih _)

theorem uploadErrors_told {o o' : OperationDef} (same : OperationDef.Rewritten s w o o') :
    Told (uploadErrors (w.context s) o) (uploadErrors (w.context' s) o') := by
  have defs := same.defs
  unfold uploadErrors
  rw [same.kind]
  generalize o.variableDefs = vs at defs ⊢
  generalize o'.variableDefs = vs' at defs ⊢
  induction defs with
  | nil => exact .nil
  | cons one _ ih =>
    rw [List.flatMap_cons, List.flatMap_cons, one.type]
    exact List.rel_append (when_told _ _ _ _) ih

theorem operationFindings_like (grounded : s.Grounded) (keeps : w.Keeps s) {o o' : OperationDef}
    (same : OperationDef.Rewritten s w o o') :
    (operationFindings (w.context s) o).Like (operationFindings (w.context' s) o') := by
  have first : Told (uploadErrors (w.context s) o ++ repeatedDirectives [] o.directives)
      (uploadErrors (w.context' s) o' ++ repeatedDirectives [] o'.directives) :=
    List.rel_append (w.uploadErrors_told same) (repeatedDirectives_told same.directives [])
  unfold operationFindings
  rw [same.kind]
  cases rooted : s.catalog.root? o.kind with
  | none =>
    dsimp only [context, context']
    rw [rooted]
    refine Findings.Like.ofErrors (List.rel_append first ?_)
    unfold notConfigured
    rw [same.kind]
    exact report_told _ _ _
  | some root =>
    have selections := same.selections
    rw [rooted] at selections
    dsimp only [context, context']
    rw [rooted]
    exact ((Findings.Like.ofErrors (List.rel_append first
      (w.variablesErrors_told grounded same.defs []))).append
      (w.directivesFindings_like grounded keeps _ same.directives)).append
      (w.walkSet_like grounded keeps (fun _ here => here) selections same.repeats)

end Rewriting

end RowGraph
