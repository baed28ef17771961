import RowGraph.Execution.Request
import RowGraph.Proofs.Execution.Arguments
/-!
Requests that are turned down before anything of them runs. What validation finds is about the text
of the request. Main statement: such a request is answered with errors that have neither a position
nor a code.
-/

namespace RowGraph

-- Errors that are about what a request says.
def Reports (errors : List ResponseError) : Prop := ∀ e ∈ errors, e.Bare

namespace Reports

variable {α : Type} {a b : List ResponseError}

@[simp] theorem nil : Reports [] := fun _ absurd => nomatch absurd

@[simp] theorem cons {e : ResponseError} : Reports (e :: a) ↔ e.Bare ∧ Reports a :=
  List.forall_mem_cons

@[simp] theorem append : Reports (a ++ b) ↔ Reports a ∧ Reports b := List.forall_mem_append

theorem map {f : α → ResponseError} (each : ∀ a, (f a).Bare) (as : List α) :
    Reports (as.map f) := by
  intro e member
  obtain ⟨a, _, rfl⟩ := List.mem_map.mp member
  exact each a

theorem flatMap {as : List α} {f : α → List ResponseError} (each : ∀ a ∈ as, Reports (f a)) :
    Reports (as.flatMap f) := by
  intro e member
  obtain ⟨a, there, found⟩ := List.mem_flatMap.mp member
  exact each a there e found

end Reports

namespace Validation

@[simp] theorem report_bare (locations : List Location) (message : String) :
    (report locations message).Bare := ⟨rfl, rfl⟩

@[simp] theorem when_reports (condition : Bool) (loc : Location) (message : String) :
    Reports (when condition loc message) := by
  unfold when
  split <;> simp

@[simp] theorem Findings.errors_append (a b : Findings) :
    (a ++ b).errors = a.errors ++ b.errors := rfl

@[simp] theorem Findings.errors_ofErrors (errors : List ResponseError) :
    (Findings.ofErrors errors).errors = errors := rfl

theorem conflicts_reports (a b : FieldHead) : Reports (conflicts a b) := by
  unfold conflicts conflict
  simp only [Reports.append]
  refine ⟨⟨?_, ?_⟩, fun e member => ?_⟩
  · split <;> simp
  · split <;> simp
  · obtain ⟨x, _, found⟩ := List.mem_filterMap.mp member
    split at found
    · split at found
      · cases found
      · obtain rfl := Option.some.inj found
        exact report_bare _ _
    · obtain rfl := Option.some.inj found
      exact report_bare _ _

theorem overlapErrors_reports (q : Query) (selections : List Selection) :
    Reports (overlapErrors q selections) := by
  unfold overlapErrors
  generalize gather q selections = fields
  generalize ([] : List (Option String × FieldHead)) = before
  induction fields generalizing before with
  | nil => exact .nil
  | cons f rest ih =>
    unfold overlapFrom
    split
    · exact Reports.append.mpr ⟨conflicts_reports _ _, ih before⟩
    · exact ih _

variable (ctx : Context)

theorem valueErrors_reports (known : List InputDef) (a : Argument) :
    Reports (valueErrors ctx known a) := by
  unfold valueErrors
  dsimp only
  split
  · split <;> simp
  · exact .nil

theorem argumentFindings_reports (owned : Owned) (known : List InputDef) (before : List String)
    (arguments : List Argument) : Reports (argumentFindings ctx owned known before arguments).errors := by
  induction arguments generalizing before with
  | nil => exact .nil
  | cons a rest ih =>
    simp only [argumentFindings, Findings.errors_append, Reports.append]
    refine ⟨⟨⟨when_reports _ _ _, ?_⟩, valueErrors_reports ctx known a⟩, ih _⟩
    split <;> simp

theorem directiveFindings_reports (site : DirectiveSite) (d : DirectiveCall) :
    Reports (directiveFindings ctx site d).errors := by
  unfold directiveFindings
  split
  · simp [argumentFindings_reports]
  · simp only [Findings.errors_append, Findings.errors_ofErrors, Reports.append]
    exact ⟨⟨when_reports _ _ _, .map (fun _ => report_bare _ _) _⟩,
      argumentFindings_reports ctx _ _ _ _⟩

theorem directivesFindings_reports (site : DirectiveSite) (directives : List DirectiveCall) :
    Reports (directivesFindings ctx site directives).errors := by
  induction directives with
  | nil => exact .nil
  | cons d rest ih => exact Reports.append.mpr ⟨directiveFindings_reports ctx site d, ih⟩

theorem repeatedDirectives_reports (before : List String) (directives : List DirectiveCall) :
    Reports (repeatedDirectives before directives) := by
  induction directives generalizing before with
  | nil => exact .nil
  | cons d rest ih =>
    unfold repeatedDirectives
    split
    · exact Reports.append.mpr ⟨when_reports _ _ _, ih _⟩
    · exact ih before

theorem fieldFindings_reports (site : FieldSite) (owned : Owned) (head : FieldHead)
    (hasSelections : Bool) : Reports (fieldFindings ctx site owned head hasSelections).errors := by
  have required : Reports (requiredErrors site head) := by
    unfold requiredErrors
    split
    · exact .map (fun _ => report_bare _ _) _
    · exact .nil
  have leaf : Reports (leafErrors site head hasSelections) := by
    unfold leafErrors
    split
    · exact .nil
    · split <;> simp
  have unknown : Reports (unknownFieldErrors site head) := by
    unfold unknownFieldErrors
    split <;> simp
  simp [fieldFindings, repeatedDirectives_reports, argumentFindings_reports,
    directivesFindings_reports, required, leaf, unknown]

theorem spreadFindings_reports (current : Option TypeDef) (name : String)
    (directives : List DirectiveCall) (loc : Location) :
    Reports (spreadFindings ctx current name directives loc).errors := by
  unfold spreadFindings
  simp only [Findings.errors_append, Findings.errors_ofErrors, Reports.append]
  refine ⟨⟨⟨⟨repeatedDirectives_reports _ _, ?_⟩, when_reports _ _ _⟩, .nil⟩,
    directivesFindings_reports ctx _ _⟩
  split
  · split <;> simp
  · exact .nil

theorem inlineFindings_reports (current : Option TypeDef) (condition : Option String)
    (directives : List DirectiveCall) (loc : Location) :
    Reports (inlineFindings ctx current condition directives loc).errors := by
  unfold inlineFindings
  simp only [Findings.errors_append, Findings.errors_ofErrors, Reports.append]
  refine ⟨⟨repeatedDirectives_reports _ _, ?_⟩, directivesFindings_reports ctx _ _⟩
  split
  · cases current <;> simp
  · split
    · simp
    · cases current <;> simp

mutual

theorem walkOne_reports (current : Option TypeDef) (owned : Owned) :
    ∀ selection : Selection, Reports (walkOne ctx current owned selection).1.errors
  | .field head brace selections => by
    unfold walkOne
    split
    · exact .nil
    · simp only [Findings.errors_append, Findings.errors_ofErrors, Reports.append]
      exact ⟨⟨fieldFindings_reports ctx _ _ _ _, overlapErrors_reports _ _⟩,
        walkAll_reports _ _ selections⟩
  | .spread name directives loc => by
    unfold walkOne
    exact spreadFindings_reports ctx _ _ _ _
  | .inline condition directives loc brace selections => by
    unfold walkOne
    simp only [Findings.errors_append, Findings.errors_ofErrors, Reports.append]
    exact ⟨⟨inlineFindings_reports ctx _ _ _ _, overlapErrors_reports _ _⟩,
      walkAll_reports _ _ selections⟩

theorem walkAll_reports (current : Option TypeDef) (owned : Owned) :
    ∀ selections : List Selection, Reports (walkAll ctx current owned selections).1.errors
  | [] => .nil
  | s :: rest => by
    unfold walkAll
    simp only [Findings.errors_append, Reports.append]
    exact ⟨walkOne_reports _ _ s, walkAll_reports _ _ rest⟩

end

theorem walkSet_reports (current : Option TypeDef) (selections : List Selection) :
    Reports (walkSet ctx current selections).errors :=
  Reports.append.mpr ⟨overlapErrors_reports _ _, walkAll_reports ctx current none selections⟩

theorem fragmentFindings_reports (f : FragmentDef) : Reports (fragmentFindings ctx f).errors := by
  unfold fragmentFindings
  simp only [Findings.errors_append, Findings.errors_ofErrors, Reports.append]
  refine ⟨⟨⟨repeatedDirectives_reports _ _, ?_⟩, directivesFindings_reports ctx _ _⟩,
    walkSet_reports ctx _ _⟩
  split <;> simp

theorem variablesErrors_reports (before : List String) (vars : List VariableDef) :
    Reports (variablesErrors ctx before vars) := by
  induction vars generalizing before with
  | nil => exact .nil
  | cons v rest ih =>
    refine Reports.append.mpr ⟨?_, ih _⟩
    unfold variableErrors
    simp only [Reports.append]
    refine ⟨⟨⟨⟨repeatedDirectives_reports _ _, ?_⟩, when_reports _ _ _⟩, when_reports _ _ _⟩, ?_⟩
    · split <;> simp
    · split
      · split <;> simp
      · exact when_reports _ _ _

theorem operationFindings_reports (o : OperationDef) :
    Reports (operationFindings ctx o).errors := by
  have uploads : Reports (uploadErrors ctx o) := .flatMap fun _ _ => when_reports _ _ _
  unfold operationFindings
  simp only
  split
  · simp [uploads, repeatedDirectives_reports, notConfigured]
  · simp [uploads, repeatedDirectives_reports, variablesErrors_reports, directivesFindings_reports,
      walkSet_reports]

theorem errors_reports : Reports (errors ctx) := by
  unfold errors Survey.errors
  simp only [Reports.append]
  refine ⟨⟨⟨⟨⟨⟨?_, ?_⟩, ?_⟩, ?_⟩, ?_⟩, ?_⟩, .map (fun _ => report_bare _ _) _⟩
  · refine .flatMap fun part member => ?_
    obtain ⟨f, _, rfl⟩ := List.mem_map.mp member
    exact fragmentFindings_reports ctx f
  · refine .flatMap fun part member => ?_
    obtain ⟨o, _, rfl⟩ := List.mem_map.mp member
    exact operationFindings_reports ctx o
  · refine .flatMap fun o _ => ?_
    unfold Survey.unusedVariables
    dsimp only
    split
    · exact .map (fun _ => report_bare _ _) _
    · exact .nil
  · exact .map (fun _ => report_bare _ _) _
  · exact .flatMap fun o _ => .map (fun _ => report_bare _ _) _
  · exact .map (fun _ => report_bare _ _) _

end Validation

namespace Request

-- What fails a list fails at one of its elements.
theorem mapM_error {α β ε : Type} {f : α → Except ε β} {as : List α} {e : ε}
    (failed : as.mapM f = .error e) : ∃ a ∈ as, f a = .error e := by
  induction as with
  | nil => cases failed
  | cons a rest ih =>
    rw [List.mapM_cons] at failed
    cases first : f a with
    | error e' =>
      rw [first] at failed
      obtain rfl : e' = e := Except.error.inj failed
      exact ⟨a, List.mem_cons_self, first⟩
    | ok b =>
      cases later : rest.mapM f with
      | error e' =>
        rw [first, later] at failed
        obtain rfl : e' = e := Except.error.inj failed
        obtain ⟨a', member, found⟩ := ih later
        exact ⟨a', List.mem_cons_of_mem a member, found⟩
      | ok bs =>
        rw [first, later] at failed
        cases failed

theorem measure_reports {q : Query} {o : OperationDef} {errors : List ResponseError}
    (refused : measure q o = .error (.errors errors)) : Reports errors := by
  unfold measure at refused
  split at refused
  · cases refused
  · cases refused
    exact Reports.cons.mpr ⟨⟨rfl, rfl⟩, .nil⟩

theorem single_reports (message : String) : Reports [{ message }] :=
  Reports.cons.mpr ⟨⟨rfl, rfl⟩, .nil⟩

theorem choose_reports {wanted : Option String} {operations : List Measured}
    {errors : List ResponseError} (refused : choose wanted operations = .error (.errors errors)) :
    Reports errors := by
  unfold choose at refused
  simp only at refused
  split at refused
  · split at refused
    · cases refused
    · cases refused
      exact single_reports _
  · split at refused
    · cases refused
    · cases refused
      exact single_reports _

theorem prepare_reports {r : Request} {s : Schema} {errors : List ResponseError}
    (refused : r.prepare s = .error (.errors errors)) : Reports errors := by
  unfold prepare at refused
  cases read : Query.read? r.source with
  | none =>
    rw [read] at refused
    cases refused
  | some q =>
    rw [read] at refused
    simp only [bind, Except.bind] at refused
    split at refused
    · rename_i refusal measured
      cases refused
      obtain ⟨o, _, found⟩ := mapM_error measured
      exact measure_reports found
    · rename_i operations _
      split at refused
      · rename_i refusal limited
        cases refused
        unfold checkLimits at limited
        simp only at limited
        split at limited
        · cases limited
          exact single_reports _
        · split at limited
          · cases limited
            exact single_reports _
          · cases limited
      · split at refused
        · rename_i refusal checked
          cases refused
          unfold checkRules at checked
          split at checked
          · cases checked
          · rename_i found _
            cases checked
            exact Validation.errors_reports _
        · split at refused
          · rename_i refusal chosen
            cases refused
            exact choose_reports chosen
          · cases refused

end Request

end RowGraph
