import RowGraph.Proofs.Schema.Alike
import RowGraph.Validation.Request
/-!
Catalogs that agree on some names. What such a name stands for mentions only such names, so whoever
starts from them never meets another. Main statement: catalogs that are alike agree on all names.
-/

namespace RowGraph

def TypeDef.Within (known : String → Prop) (t : TypeDef) : Prop := ∀ name ∈ t.mentions, known name

def FieldDef.Within (known : String → Prop) (f : FieldDef) : Prop := ∀ name ∈ f.mentions, known name

namespace TypeDef.Within

variable {known : String → Prop} {t : TypeDef} (within : t.Within known)

include within

theorem field {name : String} {f : FieldDef} (declared : t.field? name = some f) :
    f.Within known := by
  intro mentioned inside
  refine within mentioned ?_
  have member := List.mem_of_find?_eq_some declared
  unfold TypeDef.objectFields? at member
  split at member
  · rename_i fields body
    rw [TypeDef.mentions, body]
    exact List.mem_flatMap.mpr ⟨f, member, inside⟩
  · cases member

theorem inputs {fields : List InputDef} (declared : t.inputFields? = some fields) :
    ∀ f ∈ fields, known f.type.name := by
  intro f member
  refine within _ ?_
  unfold TypeDef.inputFields? at declared
  split at declared
  · rename_i body
    obtain rfl := Option.some.inj declared
    rw [TypeDef.mentions, body]
    exact List.mem_map_of_mem member
  · cases declared

end TypeDef.Within

namespace FieldDef.Within

variable {known : String → Prop} {f : FieldDef} (within : f.Within known)

include within

theorem type : known f.type.name := within _ List.mem_cons_self

theorem argument : ∀ a ∈ f.arguments, known a.type.name := fun _ member =>
  within _ (List.mem_cons_of_mem _ (List.mem_map_of_mem member))

end FieldDef.Within

theorem KnownDirective.arguments_scalar : ∀ d ∈ all, ∀ a ∈ d.arguments,
    a.type.name ∈ builtinScalars := by decide +kernel

namespace Catalog

structure Agrees (known : String → Prop) (c c' : Catalog) : Prop where
  query : c'.query = c.query
  mutation : c'.mutation = c.mutation
  introspection : c'.introspection = c.introspection
  type? : ∀ name, known name → c'.type? name = c.type? name
  within : ∀ name t, known name → c.type? name = some t → t.Within known
  scalars : ∀ name ∈ builtinScalars, known name
  roots : ∀ kind name, c.root? kind = some name → known name

theorem Alike.agrees {c c' : Catalog} (same : c.Alike c') : c.Agrees (fun _ => True) c' where
  query := same.query
  mutation := same.mutation
  introspection := same.introspection
  type? name _ := congrFun same.type? name
  within _ _ _ _ _ _ := trivial
  scalars _ _ := trivial
  roots _ _ _ := trivial

namespace Agrees

variable {known : String → Prop} {c c' : Catalog} (same : c.Agrees known c')

include same

theorem root? : c'.root? = c.root? := by
  funext kind
  unfold Catalog.root?
  rw [same.query, same.mutation]

theorem entrances : c'.entrances = c.entrances := by
  funext t
  unfold Catalog.entrances
  rw [same.introspection, same.query]

theorem field? : c'.field? = c.field? := by
  funext t name
  unfold Catalog.field?
  rw [same.entrances]

end Agrees

-- If a field of this name leads to the description, all that it mentions is known.
def Enters (known : String → Prop) (name : String) : Prop :=
  ∀ f ∈ Description.entrances, f.name = name → f.Within known

theorem Enters.field {known : String → Prop} {c : Catalog} {t : TypeDef} {name : String} {f : FieldDef}
    (enters : Enters known name) (within : t.Within known) (found : c.field? t name = some f) :
    f.Within known := by
  unfold Catalog.field? at found
  cases entrance : (c.entrances t).find? fun f => f.name = name with
  | none =>
    rw [entrance] at found
    exact within.field found
  | some g =>
    rw [entrance] at found
    obtain rfl := Option.some.inj found
    have member := List.mem_of_find?_eq_some entrance
    unfold Catalog.entrances at member
    split at member
    · exact enters g member (by simpa using List.find?_some entrance)
    · cases member

end Catalog

end RowGraph
