import RowGraph.Proofs.Tandem.Walk
/-!
The rules that look at a whole request in which ids have other forms. They work on the findings of its
parts and look at names alone, so they come to the same verdicts. Main statement: the request is
turned down for the same reasons, or not at all.
-/

namespace RowGraph

namespace Validation

structure FragmentFindings.Like (f f' : FragmentFindings) : Prop where
  name : f'.fragment.name = f.fragment.name
  findings : f.findings.Like f'.findings

structure OperationFindings.Like (o o' : OperationFindings) : Prop where
  kind : o'.operation.kind = o.operation.kind
  name : o'.operation.name = o.operation.name
  defs : List.Forall₂ (fun v v' : VariableDef => v'.name = v.name) o.operation.variableDefs
    o'.operation.variableDefs
  configured : o'.configured = o.configured
  findings : o.findings.Like o'.findings

structure Survey.Like (s s' : Survey) : Prop where
  fragments : List.Forall₂ FragmentFindings.Like s.fragments s'.fragments
  operations : List.Forall₂ OperationFindings.Like s.operations s'.operations

-- Lists of the same names.
abbrev NamedLike {α : Type} (nameOf : α → String) : List α → List α → Prop :=
  List.Forall₂ fun a a' => nameOf a' = nameOf a

theorem any_nameOf {nameOf : α → String} {as as' : List α} (same : NamedLike nameOf as as')
    (p : String → Bool) : as'.any (fun a => p (nameOf a)) = as.any fun a => p (nameOf a) :=
  any_forall₂ same fun a a' one => by rw [one]

theorem mergeNamed_named {nameOf : α → String} {as as' : List α} (same : NamedLike nameOf as as')
    {a a' : α} (one : nameOf a' = nameOf a) :
    NamedLike nameOf (mergeNamed nameOf as a) (mergeNamed nameOf as' a') := by
  have known : as'.any (fun b => nameOf b = nameOf a') = as.any fun b => nameOf b = nameOf a := by
    rw [one]
    exact any_nameOf same fun name => name = nameOf a
  unfold mergeNamed
  rw [known]
  split
  · refine map_forall₂ same fun b b' named => ?_
    rw [named, one]
    split
    · exact one
    · exact named
  · exact List.rel_append same (.cons one .nil)

theorem distinctNamed_named {nameOf : α → String} {as as' : List α} (same : NamedLike nameOf as as') :
    NamedLike nameOf (distinctNamed nameOf as) (distinctNamed nameOf as') := by
  have merged {done done' : List α} (before : NamedLike nameOf done done') :
      NamedLike nameOf (as.foldl (mergeNamed nameOf) done) (as'.foldl (mergeNamed nameOf) done') := by
    induction same generalizing done done' with
    | nil => exact before
    | cons one _ ih => exact ih (mergeNamed_named before one)
  exact merged .nil

namespace Survey.Like

variable {s s' : Survey} (like : s.Like s')

include like

theorem fragment? (name : String) :
    Option.Rel FragmentFindings.Like (s.fragment? name) (s'.fragment? name) :=
  find?_forall₂ like.fragments fun f f' same => by rw [same.name]

theorem spreadsOf (name : String) :
    NamedLike Spread.name (s.spreadsOf name) (s'.spreadsOf name) := by
  have found := like.fragment? name
  unfold Survey.spreadsOf
  generalize s.fragment? name = f at found ⊢
  generalize s'.fragment? name = f' at found ⊢
  cases found with
  | none => exact .nil
  | some same => exact same.findings.spreads

theorem reachFrom (fuel : Nat) (seen : List String) {spreads spreads' : List Spread}
    (same : NamedLike Spread.name spreads spreads') :
    s'.reachFrom seen fuel spreads' = s.reachFrom seen fuel spreads := by
  induction fuel generalizing seen spreads spreads' with
  | zero =>
    unfold Survey.reachFrom
    rfl
  | succ fuel ih =>
    cases same with
    | nil =>
      unfold Survey.reachFrom
      rfl
    | @cons spread spread' pending pending' one more =>
      have found := like.fragment? spread.name
      unfold Survey.reachFrom
      rw [one]
      generalize s.fragment? spread.name = f at found ⊢
      generalize s'.fragment? spread.name = f' at found ⊢
      split
      · exact ih seen more
      · cases found with
        | none => exact ih seen more
        | some known => exact ih _ (List.rel_append known.findings.spreads more)

theorem reach {spreads spreads' : List Spread} (same : NamedLike Spread.name spreads spreads') :
    s'.reach spreads' = s.reach spreads := by
  have steps : (s'.fragments.flatMap fun f => f.findings.spreads).length =
      (s.fragments.flatMap fun f => f.findings.spreads).length := by
    have fragments := like.fragments
    generalize s.fragments = fs at fragments ⊢
    generalize s'.fragments = fs' at fragments ⊢
    induction fragments with
    | nil => rfl
    | cons one _ ih =>
      rw [List.flatMap_cons, List.flatMap_cons, List.length_append, List.length_append, ih,
        one.findings.spreads.length_eq]
  unfold Survey.reach
  rw [steps, same.length_eq]
  exact like.reachFrom _ [] same

theorem uses {o o' : OperationFindings} (same : o.Like o') :
    List.Forall₂ (NamedLike VariableUse.name) (s.uses o) (s'.uses o') := by
  unfold Survey.uses
  rw [like.reach same.findings.spreads]
  refine .cons same.findings.uses ?_
  refine map_forall₂ (List.forall₂_same.mpr fun _ _ => rfl) ?_
  rintro name _ rfl
  have found := like.fragment? name
  generalize s.fragment? name = f at found ⊢
  generalize s'.fragment? name = f' at found ⊢
  cases found with
  | none => exact .nil
  | some known => exact known.findings.uses

end Survey.Like

theorem byOperation_same {o o' : OperationFindings} (same : o.Like o') :
    Survey.byOperation o'.operation = Survey.byOperation o.operation := by
  unfold Survey.byOperation
  rw [same.name]

namespace Survey

variable {s s' : Survey}

namespace Like

variable (like : s.Like s')

include like

theorem unusedVariables {o o' : OperationFindings} (same : o.Like o') :
    Told (s.unusedVariables o) (s'.unusedVariables o') := by
  have uses : NamedLike VariableUse.name (s.uses o).flatten (s'.uses o').flatten :=
    List.rel_flatten (like.uses same)
  unfold Survey.unusedVariables
  rw [same.configured, byOperation_same same]
  split
  · have unused : NamedLike VariableDef.name
        (o.operation.variableDefs.filter fun v => !(s.uses o).flatten.any fun u => u.name = v.name)
        (o'.operation.variableDefs.filter fun v => !(s'.uses o').flatten.any fun u => u.name = v.name) := by
      refine filter_forall₂ same.defs fun v v' named => ?_
      rw [named, any_nameOf uses fun name => name = v.name]
    refine map_forall₂ unused fun v v' named => ?_
    rw [named]
    exact report_like _ _ _
  · exact .nil

theorem unusedFragments : Told s.unusedFragments s'.unusedFragments := by
  have reached : s'.operations.flatMap (fun o => s'.reach o.findings.spreads) =
      s.operations.flatMap fun o => s.reach o.findings.spreads := by
    have equal : List.Forall₂ Eq (s.operations.flatMap fun o => s.reach o.findings.spreads)
        (s'.operations.flatMap fun o => s'.reach o.findings.spreads) := by
      refine List.rel_flatMap like.operations fun o o' same => ?_
      rw [like.reach same.findings.spreads]
      exact List.forall₂_same.mpr fun _ _ => rfl
    rw [List.forall₂_eq_eq_eq] at equal
    exact equal.symm
  unfold Survey.unusedFragments
  dsimp only
  rw [reached]
  refine map_forall₂ (filter_forall₂ like.fragments fun f f' same => ?_) fun f f' same => ?_
  · rw [same.name]
  · rw [same.name]
    exact report_like _ _ _

theorem undefinedVariables {o o' : OperationFindings} (same : o.Like o') :
    Told (s.undefinedVariables o) (s'.undefinedVariables o') := by
  unfold Survey.undefinedVariables
  dsimp only
  rw [byOperation_same same]
  have undefined : NamedLike VariableUse.name
      ((s.uses o).flatMap fun uses => (distinctNamed VariableUse.name uses).filter fun u =>
        !o.operation.variableDefs.any fun v => v.name = u.name)
      ((s'.uses o').flatMap fun uses => (distinctNamed VariableUse.name uses).filter fun u =>
        !o'.operation.variableDefs.any fun v => v.name = u.name) := by
    refine List.rel_flatMap (like.uses same) fun us us' named => ?_
    refine filter_forall₂ (distinctNamed_named named) fun u u' named => ?_
    rw [named, any_nameOf same.defs fun name => name = u.name]
  refine map_forall₂ undefined fun u u' named => ?_
  rw [named]
  exact report_like _ _ _

end Like

structure CycleSearch.Like (c c' : CycleSearch) : Prop where
  entered : c'.entered = c.entered
  found : NamedLike Spread.name c.found c'.found

theorem followSpreads_like {enter enter' : List Spread → String → CycleSearch → CycleSearch}
    (enters : ∀ way way' name c c', NamedLike Spread.name way way' → c.Like c' →
      (enter way name c).Like (enter' way' name c'))
    {way way' : List Spread} (ways : NamedLike Spread.name way way') (name : String)
    {spreads spreads' : List Spread} (same : NamedLike Spread.name spreads spreads')
    {c c' : CycleSearch} (like : c.Like c') :
    (followSpreads enter way name spreads c).Like (followSpreads enter' way' name spreads' c') := by
  induction same generalizing c c' with
  | nil =>
    unfold followSpreads
    exact like
  | @cons spread spread' rest rest' one _ ih =>
    have longer : NamedLike Spread.name (way ++ [⟨name, spread.loc⟩]) (way' ++ [⟨name, spread'.loc⟩]) :=
      List.rel_append ways (.cons (by rfl) .nil)
    have found : Option.Rel (fun l l' : Spread => l'.name = l.name)
        (List.find? (fun left => left.name = spread.name) (way ++ [⟨name, spread.loc⟩]))
        (List.find? (fun left => left.name = spread.name) (way' ++ [⟨name, spread'.loc⟩])) :=
      find?_forall₂ longer fun l l' named => by rw [named]
    unfold followSpreads
    dsimp only
    rw [one]
    refine ih ?_
    generalize List.find? _ (way ++ [(⟨name, spread.loc⟩ : Spread)]) = left at found ⊢
    generalize List.find? _ (way' ++ [(⟨name, spread'.loc⟩ : Spread)]) = left' at found ⊢
    cases found with
    | some named => exact { like with found := List.rel_append like.found (.cons named .nil) }
    | none =>
      dsimp only
      rw [like.entered]
      split
      · exact like
      · exact enters _ _ _ _ _ longer like

namespace Like

variable (like : s.Like s')

include like

theorem enterFragment (fuel : Nat) {way way' : List Spread} (ways : NamedLike Spread.name way way')
    (name : String) {c c' : CycleSearch} (same : c.Like c') :
    (s.enterFragment fuel way name c).Like (s'.enterFragment fuel way' name c') := by
  induction fuel generalizing way way' name c c' with
  | zero =>
    unfold Survey.enterFragment
    exact same
  | succ fuel ih =>
    unfold Survey.enterFragment
    refine followSpreads_like (fun way way' name c c' ways same => ih ways name same) ways name
      (like.spreadsOf name) { same with entered := ?_ }
    rw [same.entered]

theorem cycles : Told s.cycles s'.cycles := by
  have names : s'.fragments.map (fun f => f.fragment.name) = s.fragments.map fun f => f.fragment.name := by
    have equal : List.Forall₂ Eq (s.fragments.map fun f => f.fragment.name)
        (s'.fragments.map fun f => f.fragment.name) :=
      map_forall₂ like.fragments fun f f' same => same.name.symm
    rw [List.forall₂_eq_eq_eq] at equal
    exact equal.symm
  unfold Survey.cycles
  dsimp only
  rw [names]
  have searched : CycleSearch.Like
      ((s.fragments.map fun f => f.fragment.name).foldl (fun c name =>
        if c.entered.contains name then c
        else s.enterFragment ((s.fragments.map fun f => f.fragment.name).length + 1) [] name c) {})
      ((s.fragments.map fun f => f.fragment.name).foldl (fun c name =>
        if c.entered.contains name then c
        else s'.enterFragment ((s.fragments.map fun f => f.fragment.name).length + 1) [] name c) {}) := by
    refine List.rel_foldl (R := Eq) ?_ (CycleSearch.Like.mk rfl .nil)
      (List.forall₂_same.mpr fun _ _ => rfl)
    rintro c c' same name _ rfl
    dsimp only
    rw [same.entered]
    split
    · exact same
    · exact like.enterFragment _ .nil name same
  refine map_forall₂ searched.found fun l l' named => ?_
  rw [named]
  exact report_like _ _ _

theorem errors : Told s.errors s'.errors := by
  unfold Survey.errors
  refine List.rel_append (List.rel_append (List.rel_append (List.rel_append (List.rel_append ?_ ?_) ?_)
    like.unusedFragments) ?_) like.cycles
  · exact List.rel_flatMap like.fragments fun f f' same => same.findings.errors
  · exact List.rel_flatMap like.operations fun o o' same => same.findings.errors
  · exact List.rel_flatMap like.operations fun o o' same => like.unusedVariables same
  · exact List.rel_flatMap like.operations fun o o' same => like.undefinedVariables same

end Like

end Survey

end Validation

open Validation

namespace Rewriting

variable {s : Schema} {w : Rewriting}

theorem survey_like (grounded : s.Grounded) (keeps : w.Keeps s) :
    (survey (w.context s)).Like (survey (w.context' s)) where
  fragments := map_forall₂ keeps.fragments fun f f' same =>
    ⟨same.name, w.fragmentFindings_like grounded keeps same⟩
  operations := by
    refine map_forall₂ keeps.operations fun o o' same => ?_
    refine ⟨same.kind, same.name, same.defs.imp fun v v' one => one.name, ?_,
      w.operationFindings_like grounded keeps same⟩
    dsimp only [context, context']
    rw [same.kind]

-- All that is wrong with a request.
theorem errors_told (grounded : s.Grounded) (keeps : w.Keeps s) :
    Told (Validation.errors (w.context s)) (Validation.errors (w.context' s)) := by
  have like := w.survey_like grounded keeps
  unfold Validation.errors
  refine List.rel_append like.errors
    (map_forall₂ (filter_forall₂ like.operations fun o o' same => ?_) fun o o' same => ?_)
  · rw [same.configured]
  · unfold notConfigured
    rw [same.kind]
    exact report_like _ _ _

end Rewriting

end RowGraph
