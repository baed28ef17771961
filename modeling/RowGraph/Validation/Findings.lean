import RowGraph.Response
import RowGraph.Validation.InputValue
/-!
What one walk over an operation or a fragment finds: errors in the order in which they are met,
the variables used, and the fragments spread. The rules that look at a whole request work on the
findings of all its parts.
-/

namespace RowGraph.Validation

-- A variable and the argument in which it stands.
structure VariableUse where
  name : String
  loc : Location

-- A fragment and the place where it is spread.
structure Spread where
  name : String
  loc : Location

structure Findings where
  errors : List ResponseError := []
  uses : List VariableUse := []
  spreads : List Spread := []

namespace Findings

def append (a b : Findings) : Findings :=
  ⟨a.errors ++ b.errors, a.uses ++ b.uses, a.spreads ++ b.spreads⟩

instance : Append Findings := ⟨append⟩

def ofErrors (errors : List ResponseError) : Findings := { errors }

end Findings

structure Context where
  catalog : Catalog
  query : Query
  -- The values that came with the request.
  values : List (String × Datum)

def report (locations : List Location) (message : String) : ResponseError := { message, locations }

-- An error if the condition holds.
def when (condition : Bool) (loc : Location) (message : String) : List ResponseError :=
  if condition then [report [loc] message] else []

-- What has arguments, for messages about arguments that it does not have.
inductive Owner where
  | field (name type : String)
  | directive (name : String)

def Owner.unknown (argument : String) : Owner → String
  | .field name type =>
    "Unknown argument \"" ++ argument ++ "\" on field \"" ++ name ++ "\" of type \"" ++ type ++ "\"."
  | .directive name =>
    "Unknown argument \"" ++ argument ++ "\" on directive \"" ++ name ++ "\"."

-- An argument with a variable that has no value is not checked.
def valueErrors (ctx : Context) (known : List InputDef) (a : Argument) : List ResponseError :=
  let value := a.value.eval fun name =>
    match Members.get? name ctx.values with
    | some d => .ok d
    | none => .error ()
  match known.find? fun d => d.name = a.name, value with
  | some d, .ok v =>
    match ctx.catalog.inputReason d.type a.name v with
    | some reason => [report [a.loc] ("Invalid value for argument " ++ reason)]
    | none => []
  | _, _ => []

-- Whose arguments the next ones are, and which arguments that has, as far as this is known.
abbrev Owned := Option (Owner × List InputDef)

-- `before` holds the names of the arguments to the left. Names are looked up in `owned`, values are
-- checked against `known`.
def argumentFindings (ctx : Context) (owned : Owned) (known : List InputDef) :
    (before : List String) → List Argument → Findings
  | _, [] => {}
  | before, a :: rest =>
    let unknown := match owned with
      | some (o, defs) => when (!defs.any fun d => d.name = a.name) a.loc (o.unknown a.name)
      | none => []
    { errors :=
        when (before.contains a.name) a.loc
          ("There can only be one argument named \"" ++ a.name ++ "\"") ++
          unknown ++ valueErrors ctx known a
      uses := a.value.vars.map fun name => ⟨name, a.loc⟩ } ++
      argumentFindings ctx owned known (a.name :: before) rest

-- Arguments that may not be left out.
def required (known : List InputDef) (given : List Argument) : List InputDef :=
  known.filter fun d =>
    d.type.nonNull && d.fallback.isNone && !given.any fun a => a.name = d.name

def directiveFindings (ctx : Context) (site : DirectiveSite) (d : DirectiveCall) : Findings :=
  match KnownDirective.find? d.name with
  | none =>
    .ofErrors [report [d.loc] ("Unknown directive \"" ++ d.name ++ "\"")] ++
      argumentFindings ctx none [] [] d.arguments
  | some known =>
    .ofErrors
      (when (!known.sites.contains site) d.loc
          ("Directive \"" ++ d.name ++ "\" may not be used on \"" ++ site.text ++ "\"") ++
        (required known.arguments d.arguments).map fun a => report [d.loc]
          ("Directive \"@" ++ d.name ++ "\" argument \"" ++ a.name ++ "\" of type \"" ++
            a.type.text ++ "\" is required but not provided")) ++
      argumentFindings ctx (some (.directive d.name, known.arguments)) known.arguments [] d.arguments

def directivesFindings (ctx : Context) (site : DirectiveSite) : List DirectiveCall → Findings
  | [] => {}
  | d :: rest => directiveFindings ctx site d ++ directivesFindings ctx site rest

-- A directive stands at most once in one place.
def repeatedDirectives (before : List String) : List DirectiveCall → List ResponseError
  | [] => []
  | d :: rest =>
    if (KnownDirective.find? d.name).isSome then
      when (before.contains d.name) d.loc ("Duplicate directive \"" ++ d.name ++ "\"") ++
        repeatedDirectives (d.name :: before) rest
    else repeatedDirectives before rest

end RowGraph.Validation
