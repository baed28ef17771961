import RowGraph.Proofs.Tandem.Documents
/-!
What the rules find in a request in which ids have other forms. At each part of the request the same
errors are met, for the same reasons and in the same order, though at other places of the text.
Main statement: the walk over all selections finds the same.
-/

namespace RowGraph

namespace Validation

-- The same errors, at any places of the texts.
abbrev Told : List ResponseError → List ResponseError → Prop :=
  List.Forall₂ (ResponseError.Like False)

structure Findings.Like (found found' : Findings) : Prop where
  errors : Told found.errors found'.errors
  uses : List.Forall₂ (fun u u' : VariableUse => u'.name = u.name) found.uses found'.uses
  spreads : List.Forall₂ (fun u u' : Spread => u'.name = u.name) found.spreads found'.spreads

theorem Told.refl (errors : List ResponseError) : Told errors errors :=
  List.forall₂_same.mpr fun e _ => .refl False e

theorem report_like (locations locations' : List Location) (message : String) :
    ResponseError.Like False (report locations message) (report locations' message) :=
  ⟨rfl, rfl, rfl, False.elim⟩

theorem report_told (loc loc' : Location) (message : String) :
    Told [report [loc] message] [report [loc'] message] :=
  .cons (report_like _ _ message) .nil

theorem when_told (condition : Bool) (loc loc' : Location) (message : String) :
    Told (when condition loc message) (when condition loc' message) := by
  unfold when
  split
  · exact report_told loc loc' message
  · exact .nil

theorem reports_told (as : List α) (loc loc' : Location) (message : α → String) :
    Told (as.map fun a => report [loc] (message a)) (as.map fun a => report [loc'] (message a)) := by
  refine map_forall₂ (List.forall₂_same.mpr fun _ _ => rfl) ?_
  rintro a _ rfl
  exact report_like _ _ _

namespace Findings

theorem Like.empty : Like {} {} := ⟨.nil, .nil, .nil⟩

theorem Like.ofErrors {errors errors' : List ResponseError} (told : Told errors errors') :
    Like (Findings.ofErrors errors) (Findings.ofErrors errors') := ⟨told, .nil, .nil⟩

theorem Like.ofSpread (name : String) (loc loc' : Location) :
    Like { spreads := [⟨name, loc⟩] } { spreads := [⟨name, loc'⟩] } :=
  ⟨.nil, .nil, .cons (by rfl) .nil⟩

theorem Like.append {a a' b b' : Findings} (first : Like a a') (second : Like b b') :
    Like (a ++ b) (a' ++ b') :=
  ⟨List.rel_append first.errors second.errors, List.rel_append first.uses second.uses,
    List.rel_append first.spreads second.spreads⟩

end Findings

end Validation

open Validation

namespace Rewriting

def context (s : Schema) (w : Rewriting) : Validation.Context := ⟨s.catalog, w.before, w.values⟩

def context' (s : Schema) (w : Rewriting) : Validation.Context := ⟨s.catalog, w.after, w.values'⟩

-- An argument whose value is an id only where its declaration asks for one.
def Fitted (s : Schema) (w : Rewriting) (known : List InputDef) (a a' : Argument) : Prop :=
  ∃ f : Form, (∀ d, known.find? (fun d => d.name = a.name) = some d → f.Fits s.catalog d.type) ∧
    Argument.Rewritten w.forms f a a'

variable {s : Schema} {w : Rewriting}

theorem Fitted.plain (known : List InputDef) {as as' : List Argument}
    (arguments : List.Forall₂ (Argument.Rewritten w.forms .plain) as as') :
    List.Forall₂ (w.Fitted s known) as as' :=
  arguments.imp fun _ _ same => ⟨.plain, fun _ _ => trivial, same⟩

theorem given (keeps : w.Keeps s) (name : String) :
    Agree (fun _ _ => True) (Datum.Rewritten (w.forms name))
      (match Members.get? name w.values with
        | some d => .ok d
        | none => .error () : Except Unit Datum)
      (match Members.get? name w.values' with
        | some d => .ok d
        | none => .error ()) := by
  have found := keeps.values.alike.get? name
  generalize Members.get? name w.values = d at found ⊢
  generalize Members.get? name w.values' = d' at found ⊢
  cases found with
  | none => exact .error trivial
  | some same => exact .ok same

theorem valueErrors_told (grounded : s.Grounded) (keeps : w.Keeps s) {known : List InputDef}
    {a a' : Argument} (fitted : w.Fitted s known a a') :
    Told (valueErrors (w.context s) known a) (valueErrors (w.context' s) known a') := by
  obtain ⟨f, fits, same⟩ := fitted
  have value := same.value.eval (w.given keeps)
  unfold valueErrors
  dsimp only [context, context']
  rw [same.name]
  generalize a.value.eval _ = v at value ⊢
  generalize a'.value.eval _ = v' at value ⊢
  cases found : known.find? (fun d => d.name = a.name) with
  | none => exact .nil
  | some d =>
    cases value with
    | error _ => exact .nil
    | ok rewritten =>
      dsimp only
      rw [grounded.rewritten_reason rewritten d.type a.name (fits d found)]
      split
      · exact report_told _ _ _
      · exact .nil

theorem argumentFindings_like (grounded : s.Grounded) (keeps : w.Keeps s) (owned : Owned)
    {known : List InputDef} {as as' : List Argument}
    (arguments : List.Forall₂ (w.Fitted s known) as as') (before : List String) :
    (argumentFindings (w.context s) owned known before as).Like
      (argumentFindings (w.context' s) owned known before as') := by
  induction arguments generalizing before with
  | nil => exact .empty
  | @cons a a' rest rest' fitted _ ih =>
    have names : a'.name = a.name := fitted.choose_spec.2.name
    have vars : a'.value.vars = a.value.vars := fitted.choose_spec.2.value.vars
    unfold argumentFindings
    simp only [names, vars]
    refine Findings.Like.append ⟨?_, ?_, .nil⟩ (ih _)
    · refine List.rel_append (List.rel_append (when_told _ _ _ _) ?_)
        (w.valueErrors_told grounded keeps fitted)
      cases owned with
      | none => exact .nil
      | some o => exact when_told _ _ _ _
    · refine map_forall₂ (List.forall₂_same.mpr fun _ _ => rfl) ?_
      rintro name _ rfl
      rfl

end Rewriting

namespace Validation

theorem required_named {as as' : List Argument}
    (names : List.Forall₂ (fun a a' : Argument => a'.name = a.name) as as') (known : List InputDef) :
    required known as' = required known as := by
  have given (name : String) : as'.any (fun a => a.name = name) = as.any fun a => a.name = name :=
    any_forall₂ names fun a a' same => by rw [same]
  unfold required
  simp only [given]

theorem repeatedDirectives_told {forms : String → Form} {ds ds' : List DirectiveCall}
    (directives : List.Forall₂ (DirectiveCall.Rewritten forms) ds ds') (before : List String) :
    Told (repeatedDirectives before ds) (repeatedDirectives before ds') := by
  induction directives generalizing before with
  | nil => exact .nil
  | cons same _ ih =>
    unfold repeatedDirectives
    rw [same.name]
    split
    · exact List.rel_append (when_told _ _ _ _) (ih _)
    · exact ih before

end Validation

namespace Rewriting

variable {s : Schema} {w : Rewriting}

theorem directiveFindings_like (grounded : s.Grounded) (keeps : w.Keeps s) (site : DirectiveSite)
    {d d' : DirectiveCall} (same : DirectiveCall.Rewritten w.forms d d') :
    (directiveFindings (w.context s) site d).Like (directiveFindings (w.context' s) site d') := by
  unfold directiveFindings
  rw [same.name]
  cases KnownDirective.find? d.name with
  | none =>
    exact (Findings.Like.ofErrors (report_told _ _ _)).append
      (w.argumentFindings_like grounded keeps _ (Fitted.plain _ same.arguments) [])
  | some known =>
    refine (Findings.Like.ofErrors (List.rel_append (when_told _ _ _ _) ?_)).append
      (w.argumentFindings_like grounded keeps _ (Fitted.plain _ same.arguments) [])
    rw [required_named (same.arguments.imp fun _ _ a => a.name)]
    exact reports_told _ _ _ _

theorem directivesFindings_like (grounded : s.Grounded) (keeps : w.Keeps s) (site : DirectiveSite)
    {ds ds' : List DirectiveCall} (directives : List.Forall₂ (DirectiveCall.Rewritten w.forms) ds ds') :
    (directivesFindings (w.context s) site ds).Like (directivesFindings (w.context' s) site ds') := by
  induction directives with
  | nil => exact .empty
  | cons same _ ih => exact (w.directiveFindings_like grounded keeps site same).append ih

end Rewriting

-- What the rules see of a field besides how its arguments are written.
structure FieldHead.Named (head head' : FieldHead) : Prop where
  key : head'.key = head.key
  name : head'.name = head.name
  arguments : List.Forall₂ (fun a a' : Argument => a'.name = a.name) head.arguments head'.arguments

theorem FieldHead.Rewritten.named {s : Schema} {forms : String → Form} {on : Option TypeDef}
    {head head' : FieldHead} (same : FieldHead.Rewritten s forms on head head') : head.Named head' :=
  ⟨same.key, same.name, same.arguments.imp fun _ _ a => a.choose_spec.2.name⟩

namespace Validation

def EntryNamed (e e' : Option String × FieldHead) : Prop := e'.1 = e.1 ∧ e.2.Named e'.2

structure Gathered.Named (g g' : Gathered) : Prop where
  fields : List.Forall₂ EntryNamed g.fields g'.fields
  visited : g'.visited = g.visited

section

variable {s : Schema} {w : Rewriting} {spread spread' : String → Gathered → Gathered}

mutual

theorem gatherOne_named (inside : ∀ name g g', g.Named g' → (spread name g).Named (spread' name g'))
    (on : Option String) : ∀ (sel sel' : Selection) {type : Option TypeDef} {g g' : Gathered},
    Selection.Rewritten s w type sel sel' → g.Named g' →
    (gatherOne spread on g sel).Named (gatherOne spread' on g' sel')
  | _, _, _, _, _, .field heads _ _, same => by
    unfold gatherOne
    exact { same with fields := List.rel_append same.fields (.cons ⟨rfl, heads.named⟩ .nil) }
  | _, _, _, _, _, .spread _ _, same => by
    unfold gatherOne
    exact inside _ _ _ same
  | .inline condition _ _ _ selections, .inline _ _ _ _ selections', _, _, _, .inline _ all _, same => by
    unfold gatherOne
    exact gatherAll_named inside condition selections selections' all same

theorem gatherAll_named (inside : ∀ name g g', g.Named g' → (spread name g).Named (spread' name g'))
    (on : Option String) : ∀ (all all' : List Selection) {type : Option TypeDef} {g g' : Gathered},
    Selection.AllRewritten s w type all all' → g.Named g' →
    (gatherAll spread on g all).Named (gatherAll spread' on g' all')
  | _, _, _, _, _, .nil, same => by
    unfold gatherAll
    exact same
  | sel :: rest, sel' :: rest', _, _, _, .cons first more, same => by
    unfold gatherAll
    exact gatherAll_named inside on rest rest' more (gatherOne_named inside on sel sel' first same)

end

end

theorem conflict_like (key reason : String) (a b a' b' : FieldHead) :
    ResponseError.Like False (conflict key reason a b) (conflict key reason a' b') :=
  report_like _ _ _

-- One conflict for each argument that is written otherwise.
theorem conflicts_eq (a b : FieldHead) : conflicts a b =
    (if a.name = b.name then []
      else [conflict a.key ("\"" ++ a.name ++ "\" and \"" ++ b.name ++ "\" are different fields") a b]) ++
    (if a.arguments.length = b.arguments.length then []
      else [conflict a.key "they have differing arguments" a b]) ++
    a.arguments.filterMap fun x =>
      if writtenIn b x then none else some (conflict x.name "they have differing arguments" a b) := by
  unfold conflicts
  refine congrArg _ (congrArg (List.filterMap · a.arguments) (funext fun x => ?_))
  unfold writtenIn
  cases b.arguments.find? (fun y => y.name = x.name) <;> rfl

theorem conflicts_told {a a' b b' : FieldHead} (first : a.Named a') (second : b.Named b')
    (same : a'.arguments.map (writtenIn b') = a.arguments.map (writtenIn b)) :
    Told (conflicts a b) (conflicts a' b') := by
  rw [conflicts_eq, conflicts_eq]
  refine List.rel_append (List.rel_append ?_ ?_) ?_
  · rw [first.name, second.name, first.key]
    split
    · exact .nil
    · exact .cons (conflict_like _ _ _ _ _ _) .nil
  · rw [← first.arguments.length_eq, ← second.arguments.length_eq, first.key]
    split
    · exact .nil
    · exact .cons (conflict_like _ _ _ _ _ _) .nil
  · have names := first.arguments
    generalize a.arguments = xs at names same ⊢
    generalize a'.arguments = xs' at names same ⊢
    induction names with
    | nil => exact .nil
    | @cons x x' rest rest' name _ ih =>
      simp only [List.map_cons, List.cons.injEq] at same
      rw [List.filterMap_cons, List.filterMap_cons, same.1, name]
      cases writtenIn b x with
      | true => exact ih same.2
      | false => exact .cons (conflict_like _ _ _ _ _ _) (ih same.2)

theorem overlapFrom_told {fs fs' : List (Option String × FieldHead)}
    (fields : List.Forall₂ EntryNamed fs fs') {before before' : List (Option String × FieldHead)}
    (earlier : List.Forall₂ EntryNamed before before')
    (same : repeatsFrom before' fs' = repeatsFrom before fs) :
    Told (overlapFrom before fs) (overlapFrom before' fs') := by
  induction fields generalizing before before' with
  | nil => exact .nil
  | @cons f f' rest rest' one _ ih =>
    have found : Option.Rel EntryNamed (before.find? fun e => e.1 = f.1 && e.2.key = f.2.key)
        (before'.find? fun e => e.1 = f'.1 && e.2.key = f'.2.key) :=
      find?_forall₂ earlier fun e e' named => by rw [named.1, named.2.key, one.1, one.2.key]
    unfold repeatsFrom at same
    unfold overlapFrom
    generalize before.find? _ = e at found same ⊢
    generalize before'.find? _ = e' at found same ⊢
    cases found with
    | none => exact ih (List.rel_append earlier (.cons one .nil)) same
    | some first =>
      obtain ⟨here, later⟩ := List.cons.inj same
      exact List.rel_append (conflicts_told first.2 one.2 here) (ih earlier later)

end Validation

namespace Rewriting

variable {s : Schema} {w : Rewriting}

theorem gatherSpread_named (keeps : w.Keeps s) (fuel : Nat) (name : String) {g g' : Gathered}
    (same : g.Named g') :
    (gatherSpread w.before fuel name g).Named (gatherSpread w.after fuel name g') := by
  induction fuel generalizing name g g' with
  | zero =>
    unfold gatherSpread
    exact same
  | succ fuel ih =>
    have found := keeps.fragment? name
    unfold gatherSpread
    generalize w.before.fragment? name = f at found ⊢
    generalize w.after.fragment? name = f' at found ⊢
    cases found with
    | none => exact same
    | some known =>
      dsimp only
      rw [same.visited, known.condition]
      split
      · exact same
      · refine gatherAll_named (fun name g g' same => ih name same) _ _ _ known.selections ?_
        exact { same with visited := rfl }

theorem overlapErrors_told (keeps : w.Keeps s) {type : Option TypeDef} {all all' : List Selection}
    (selections : Selection.AllRewritten s w type all all')
    (same : repeats w.after all' = repeats w.before all) :
    Told (overlapErrors w.before all) (overlapErrors w.after all') := by
  have entries : List.Forall₂ EntryNamed (gather w.before all) (gather w.after all') := by
    unfold gather
    rw [keeps.fragments.length_eq]
    exact (gatherAll_named (fun name g g' same => w.gatherSpread_named keeps _ name same) none all all'
      selections ⟨.nil, rfl⟩).fields
  exact overlapFrom_told entries .nil same

end Rewriting

end RowGraph
