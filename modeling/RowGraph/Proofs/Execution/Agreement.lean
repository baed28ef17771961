import RowGraph.Proofs.Language.Names
import RowGraph.Proofs.Schema.Agreement
/-!
Executing selections against schemas that agree on some names. From a type of such a name an
execution comes to types of such names only, and meets their fields and hooks alone. Main statement:
if two executions answer questions about their schemas alike, or are asked none, then they do the
same on the same selections.
-/

namespace RowGraph

variable {σ : Type}

namespace Execution

structure SameVariables (x x' : Execution σ) : Prop where
  declared : x'.declared = x.declared
  given : x'.given = x.given

namespace SameVariables

variable {x x' : Execution σ} (same : x.SameVariables x')

include same

theorem argumentValue : x'.argumentValue = x.argumentValue := by
  funext a
  unfold Execution.argumentValue
  have read : x'.variableValue = x.variableValue := by
    funext loc name
    unfold variableValue
    rw [same.declared, same.given]
  rw [read]

theorem arguments : x'.arguments = x.arguments := by
  funext f head
  have given (as : List Argument) : x'.givenArguments as = x.givenArguments as := by
    induction as with
    | nil => rfl
    | cons a rest ih =>
      unfold givenArguments
      rw [same.argumentValue, ih]
  unfold Execution.arguments
  rw [given]

theorem fittingArguments (head : FieldHead) (known : List InputDef) :
    x'.fittingArguments head known = x.fittingArguments head known := by
  induction known with
  | nil => rfl
  | cons i rest ih =>
    unfold Execution.fittingArguments
    simp only [same.argumentValue, ih]

end SameVariables

-- Executions of one operation on one backend.
structure Agrees (known : String → Prop) (x x' : Execution σ) : Prop extends SameVariables x x' where
  catalog : x.schema.catalog.Agrees known x'.schema.catalog
  resolvers : ∀ type field, known type →
    FieldMap.get? x'.schema.resolvers type field = FieldMap.get? x.schema.resolvers type field
  hooks : ∀ type field, known type →
    FieldMap.get? x'.schema.hooks type field = FieldMap.get? x.schema.hooks type field
  backend : x'.backend = x.backend

-- Questions about the schema have the same answers.
def Describes (x x' : Execution σ) : Prop := ∀ path head f children,
  x'.enterDescription path head f children = x.enterDescription path head f children

end Execution

-- The field does not lead to the description of the schema.
def FieldHead.Plain (head : FieldHead) : Prop := ∀ f ∈ Description.entrances, f.name ≠ head.name

theorem Catalog.Agrees.outcome {known : String → Prop} {c c' : Catalog} (same : c.Agrees known c')
    {object object' : Complete.ObjectData σ}
    (objects : ∀ name t, known name → c.type? name = some t → ∀ o here,
      object' t o here = object t o here) (loc : Location) (type : TypeExpr)
    (named : known type.name) (path : Path) (o : Option Outcome) :
    Complete.outcome c' object' loc type path o = Complete.outcome c object loc type path o := by
  induction type generalizing path o with
  | named name nonNull =>
    cases o with
    | none => rfl
    | some o =>
      unfold Complete.outcome
      rw [same.type? name named]
      cases found : c.type? name with
      | none => rfl
      | some t =>
        simp only [Complete.value, objects name t named found]
  | list item nonNull ih =>
    cases o with
    | none => rfl
    | some o =>
      unfold Complete.outcome
      simp only [ih named]

namespace Execution.Agrees

variable {known : String → Prop} {x x' : Execution σ} (same : x.Agrees known x')

include same

theorem declaredField {type : String} (named : known type) (field : String) :
    x'.declaredField type field = x.declaredField type field := by
  funext path loc arguments parent
  have resolver : x'.resolver = x.resolver := by
    funext path loc arguments parent r
    unfold Execution.resolver
    rw [same.backend]
  unfold Execution.declaredField
  rw [same.hooks type field named, same.resolvers type field named, resolver]

theorem field {type : TypeDef} (named : known type.name) (parent : Outcome) (path : Path)
    (head : FieldHead) {object object' : Complete.ObjectData σ}
    (objects : ∀ name t, known name → x.schema.catalog.type? name = some t → ∀ o here,
      object' t o here = object t o here) {f : FieldDef} (within : f.Within known) :
    x'.field type parent path head object' f = x.field type parent path head object f := by
  unfold Execution.field
  simp only [same.arguments, same.declaredField named,
    same.catalog.outcome objects _ f.type within.type]

end Execution.Agrees

theorem Execution.entrance?_name {x : Execution σ} {type : TypeDef} {name : String} {f : FieldDef}
    (found : x.entrance? type name = some f) : f ∈ Description.entrances ∧ f.name = name := by
  have member := List.mem_of_find?_eq_some found
  unfold Catalog.entrances at member
  split at member
  · exact ⟨member, by simpa using List.find?_some found⟩
  · cases member

mutual

theorem Execution.Agrees.selection {known : String → Prop} {x x' : Execution σ}
    (same : x.Agrees known x') {type : TypeDef} (named : known type.name)
    (within : type.Within known) (parent : Outcome) (path : Path) :
    ∀ n : Node, (x.Describes x' ∨ ∀ head ∈ n.heads, head.Plain) →
      x'.selection type parent path n = x.selection type parent path n
  | .group condition loc children, asked => by
    unfold Execution.selection
    rw [same.selections named within parent path children asked]
  | .field head children, asked => by
    unfold Execution.selection
    have entrances : x'.entrance? type head.name = x.entrance? type head.name := by
      unfold Execution.entrance?
      rw [same.catalog.entrances]
    rw [entrances]
    by_cases typeName : head.name = "__typename"
    · rw [if_pos typeName, if_pos typeName]
    · rw [if_neg typeName, if_neg typeName]
      cases entrance : x.entrance? type head.name with
      | some f =>
        obtain ⟨member, name⟩ := Execution.entrance?_name entrance
        have describes := asked.resolve_right fun plain =>
          plain head List.mem_cons_self f member name
        simp only [describes path head f children]
      | none =>
        cases declared : type.field? head.name with
        | none => rfl
        | some f =>
          have below : x.Describes x' ∨ ∀ head ∈ Node.headsAll children, head.Plain :=
            asked.imp_right fun plain head inside => plain head (List.mem_cons_of_mem _ inside)
          have objects : ∀ name t, known name → x.schema.catalog.type? name = some t →
              ∀ (o : Outcome) (here : Path),
                (Datum.ofResults <$> x'.selections t o here children) =
                  Datum.ofResults <$> x.selections t o here children := by
            intro name t known found o here
            rw [same.selections (Catalog.name_of_type? found ▸ known)
              (same.catalog.within name t known found) o here children below]
          simp only [same.field named parent path head objects (within.field declared)]

theorem Execution.Agrees.selections {known : String → Prop} {x x' : Execution σ}
    (same : x.Agrees known x') {type : TypeDef} (named : known type.name)
    (within : type.Within known) (parent : Outcome) (path : Path) :
    ∀ nodes, (x.Describes x' ∨ ∀ head ∈ Node.headsAll nodes, head.Plain) →
      x'.selections type parent path nodes = x.selections type parent path nodes
  | [], _ => rfl
  | n :: rest, asked => by
    unfold Execution.selections
    have first : x.Describes x' ∨ ∀ head ∈ n.heads, head.Plain :=
      asked.imp_right fun plain head inside => plain head (List.mem_append_left _ inside)
    have others : x.Describes x' ∨ ∀ head ∈ Node.headsAll rest, head.Plain :=
      asked.imp_right fun plain head inside => plain head (List.mem_append_right _ inside)
    rw [same.selection named within parent path n first,
      same.selections named within parent path rest others]

end

theorem Execution.Agrees.run {known : String → Prop} {x x' : Execution σ}
    (same : x.Agrees known x') {root : TypeDef} (named : known root.name)
    (within : root.Within known) {nodes : List Node}
    (asked : x.Describes x' ∨ ∀ head ∈ Node.headsAll nodes, head.Plain) (store : σ) : x'.run root nodes store = x.run root nodes store := by
  unfold Execution.run
  rw [same.selections named within .root [] nodes asked]

end RowGraph
