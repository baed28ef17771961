import RowGraph.Proofs.Tandem.Matching
import RowGraph.Proofs.Tandem.Survey
/-!
Requests in which ids have other forms are prepared alike: their operations unfold into trees of the
same fields, which cost the same, and the same is left of them. Main statement: such a request is
turned down as the other one is, or it is executed like it.
-/

namespace RowGraph

variable {s : Schema} {w : Rewriting}

-- Parts go together that differ in the forms of ids.
def Rewriting.matching (s : Schema) (w : Rewriting) : Matching :=
  ⟨w.before, w.after, FieldHead.Rewritten s w.forms, List.Forall₂ (DirectiveCall.Rewritten w.forms),
    w.aside⟩

mutual

theorem Selection.Rewritten.matches : ∀ {on : Option TypeDef} {sel sel' : Selection},
    Selection.Rewritten s w on sel sel' → Selection.Matches s (w.matching s) on sel sel'
  | _, _, _, .field heads all _ => .field heads (Selection.AllRewritten.allMatch all)
  | _, _, _, .spread calls aside => .spread calls aside
  | _, _, _, .inline calls all _ => .inline calls (Selection.AllRewritten.allMatch all)

theorem Selection.AllRewritten.allMatch : ∀ {on : Option TypeDef} {all all' : List Selection},
    Selection.AllRewritten s w on all all' → Selection.AllMatch s (w.matching s) on all all'
  | _, _, _, .nil => .nil
  | _, _, _, .cons first more =>
    .cons (Selection.Rewritten.matches first) (Selection.AllRewritten.allMatch more)

end

theorem Rewriting.Keeps.matching (keeps : w.Keeps s) : (w.matching s).Fragments s :=
  keeps.fragments.imp fun _ _ one =>
    ⟨one.name, one.condition, one.selections.allMatch, fun aside => (one.aside aside).allMatch⟩

namespace Node

mutual

theorem Matches.cost : ∀ {on : Option TypeDef} {n n' : Node}, Node.Matches s (w.matching s) on n n' →
    n'.cost = n.cost
  | _, _, _, .field heads inside => by
    unfold Node.cost
    rw [FieldHead.Rewritten.name heads, AllMatch.costAll inside]
  | _, _, _, .group _ inside => by
    unfold Node.cost
    exact AllMatch.costAll inside

theorem AllMatch.costAll : ∀ {on : Option TypeDef} {nodes nodes' : List Node},
    Node.AllMatch s (w.matching s) on nodes nodes' → costAll nodes' = costAll nodes
  | _, _, _, .nil => rfl
  | _, _, _, .cons first more => by
    unfold Node.costAll
    rw [Matches.cost first, AllMatch.costAll more]

end

mutual

theorem Matches.depth : ∀ {on : Option TypeDef} {n n' : Node}, Node.Matches s (w.matching s) on n n' →
    n'.depth = n.depth
  | _, _, _, .field heads inside => by
    unfold Node.depth
    rw [FieldHead.Rewritten.name heads, AllMatch.depthAll inside]
  | _, _, _, .group _ inside => by
    unfold Node.depth
    exact AllMatch.depthAll inside

theorem AllMatch.depthAll : ∀ {on : Option TypeDef} {nodes nodes' : List Node},
    Node.AllMatch s (w.matching s) on nodes nodes' → depthAll nodes' = depthAll nodes
  | _, _, _, .nil => rfl
  | _, _, _, .cons first more => by
    unfold Node.depthAll
    rw [Matches.depth first, AllMatch.depthAll more]

end

theorem costAll_append (nodes more : List Node) : costAll (nodes ++ more) = costAll nodes + costAll more := by
  induction nodes with
  | nil => simp only [List.nil_append, costAll, Nat.zero_add]
  | cons n rest ih => simp only [List.cons_append, costAll, ih, Nat.add_assoc]

end Node

namespace Rewriting

-- A condition looks at no id.
theorem isSkipped_same (keeps : w.Keeps s) {ds ds' : List DirectiveCall}
    (same : List.Forall₂ (DirectiveCall.Rewritten w.forms) ds ds') :
    Node.isSkipped w.values' ds' = Node.isSkipped w.values ds := by
  refine Node.isSkipped_agree (same.imp fun d d' one => ⟨one.name, one.arguments.imp fun a a' same => ?_⟩)
  exact ⟨same.name, (same.value.eval (w.given keeps)).imp fun _ _ rewritten => rewritten.plain.symm⟩

theorem skips (keeps : w.Keeps s) : (w.matching s).Skips w.values w.values' where
  directives _ _ _ heads := FieldHead.Rewritten.directives heads
  same _ _ calls := w.isSkipped_same keeps calls

end Rewriting

namespace Request

structure Measured.Rewritten (s : Schema) (w : Rewriting) (m m' : Measured) : Prop where
  operation : OperationDef.Rewritten s w m.operation m'.operation
  nodes : Node.AllMatch s (w.matching s) ((s.catalog.root? m.operation.kind).bind s.catalog.type?)
    m.nodes m'.nodes

theorem measure_rewritten (keeps : w.Keeps s) {o o' : OperationDef}
    (same : OperationDef.Rewritten s w o o') :
    Agree (Refusal.Like False) (Measured.Rewritten s w) (measure w.before o) (measure w.after o') := by
  refine (measure_agree keeps.matching same.selections.allMatch).imp ?_
  rintro ⟨_, nodes⟩ ⟨_, nodes'⟩ ⟨⟨rfl, rfl⟩, all⟩
  exact ⟨same, all⟩

theorem checkLimits_agree {all all' : List Measured} (same : List.Forall₂ (Measured.Rewritten s w) all all') :
    Agree (Refusal.Like False) Eq (checkLimits s all) (checkLimits s all') := by
  have counted : List.Forall₂ (Measured.Rewritten s w)
      (all.filter fun m => (s.catalog.root? m.operation.kind).isSome)
      (all'.filter fun m => (s.catalog.root? m.operation.kind).isSome) :=
    filter_forall₂ same fun m m' one => by rw [one.operation.kind]
  unfold checkLimits
  dsimp only
  generalize all.filter _ = ms at counted ⊢
  generalize all'.filter _ = ms' at counted ⊢
  have cost : Node.costAll (ms'.flatMap Measured.nodes) = Node.costAll (ms.flatMap Measured.nodes) := by
    induction counted with
    | nil => rfl
    | cons one _ ih =>
      rw [List.flatMap_cons, List.flatMap_cons, Node.costAll_append, Node.costAll_append, ih,
        one.nodes.costAll]
  have deep : ms'.any (fun m => s.settings.depthLimit < Node.depthAll m.nodes) =
      ms.any fun m => s.settings.depthLimit < Node.depthAll m.nodes :=
    any_forall₂ counted fun m m' one => by rw [one.nodes.depthAll]
  rw [cost, deep]
  split
  · exact .error (refused_told False _)
  · split
    · exact .error (refused_told False _)
    · exact .ok rfl

theorem checkRules_agree (grounded : s.Grounded) (keeps : w.Keeps s) :
    Agree (Refusal.Like False) Eq (checkRules (w.context s)) (checkRules (w.context' s)) := by
  have told := w.errors_told grounded keeps
  unfold checkRules
  generalize Validation.errors (w.context s) = errors at told ⊢
  generalize Validation.errors (w.context' s) = errors' at told ⊢
  cases told with
  | nil => exact .ok rfl
  | cons first rest => exact .error (.errors (.cons first rest))

end Request

-- What a variable stands for, where its value or its default has another form.
theorem Rewriting.variableValue_agree {σ σ' : Type} (keeps : w.Keeps s) {o o' : OperationDef}
    (same : OperationDef.Rewritten s w o o') (b : Backend σ) (b' : Backend σ') (loc loc' : Location)
    (name : String) : Agree (ResponseError.Like False) (Datum.Rewritten (w.forms name))
      ((⟨s, b, o.variableDefs, w.values⟩ : Execution σ).variableValue loc name)
      ((⟨s, b', o'.variableDefs, w.values'⟩ : Execution σ').variableValue loc' name) := by
  refine Execution.variableValue_agree (R := fun name => Datum.Rewritten (w.forms name))
    (fun _ _ => .same _) (same.defs.imp fun v v' one => ⟨one.name, one.type, ?_⟩) keeps.values.alike
    False.elim name
  obtain equal | ⟨_, fallback⟩ := one.fallback
  · rw [equal]
    exact Option.rel_refl .same _
  · exact fallback

-- Where a resolver takes no other form, an argument has one form.
theorem Schema.Site.varies {on : Option TypeDef} {field argument : String} {f : Form}
    (site : s.Site on field argument f) {d d' : Datum} (rewritten : Datum.Rewritten f d d') :
    Resolver.Varies (s.site? on field) argument d d' := by
  cases site with
  | plain => exact .inl rewritten.plain
  | reads there reads _ =>
    rw [there]
    exact reads.varies rewritten

section

variable {σ σ' : Type} {x : Execution σ} {x' : Execution σ'}

theorem FieldHead.Rewritten.alike {on : Option TypeDef} {head head' : FieldHead}
    (values : ∀ loc loc' name, Agree (ResponseError.Like False) (Datum.Rewritten (w.forms name))
      (x.variableValue loc name) (x'.variableValue loc' name))
    (same : FieldHead.Rewritten x.schema w.forms on head head') :
    FieldHead.Alike False x x' (Resolver.Varies (x.schema.site? on head.name)) head head' where
  name := same.name
  key := same.key
  place := False.elim
  arguments := by
    refine same.arguments.imp ?_
    rintro a a' ⟨f, site, one⟩
    refine ⟨one.name, False.elim, ?_⟩
    exact (one.value.eval fun name => values _ _ name).imp fun d d' rewritten => site.varies rewritten

theorem Rewriting.executes (values : ∀ loc loc' name, Agree (ResponseError.Like False)
      (Datum.Rewritten (w.forms name)) (x.variableValue loc name) (x'.variableValue loc' name)) :
    (w.matching x.schema).Executes False x x' :=
  fun _ _ _ heads => ⟨_, x.schema.admits_site _ _, FieldHead.Rewritten.alike values heads⟩

end

-- A request with ids in other forms is prepared like the request.
theorem Request.Rewritten.alike (grounded : s.Grounded) {r r' : Request}
    (rewritten : Request.Rewritten s r r') : Request.Alike s False r r' := by
  cases rewritten with
  | same => exact .refl s r
  | ids w keeps read read' values values' operation =>
    unfold Request.Alike Request.prepare
    rw [read, read', operation, values, values']
    refine (mapM_agree keeps.operations fun o o' one => measure_rewritten keeps one).bind fun all all' each => ?_
    refine (checkLimits_agree each).bind fun _ _ _ => ?_
    refine (checkRules_agree grounded keeps).bind fun _ _ _ => ?_
    refine (choose_agree (fun _ _ one => one.operation.name) r.operation each).bind fun m m' one => .ok ⟨one.operation.kind, False.elim, ?_⟩
    intro root rooted σ σ' b b'
    have nodes := one.nodes.pruneAll (w.skips keeps)
    rw [rooted] at nodes
    rw [values, values']
    refine Node.AllMatch.alike (w.executes fun loc loc' name => ?_) nodes
    exact w.variableValue_agree keeps one.operation b b' loc loc' name

end RowGraph
