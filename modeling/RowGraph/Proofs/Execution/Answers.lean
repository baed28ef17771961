import RowGraph.Execution.Describe
import RowGraph.Proofs.Response.Walk
import RowGraph.Proofs.Schema.Closed
/-!
Answers to questions about the schema. Main statement: an answer fits the type of its question, so
what may not be null has an answer, and the types of the parts that it leads to are known.
-/

namespace RowGraph

namespace Described

-- A part whose types are known.
def Sound (c : Catalog) : Described → Prop
  | .type t => c.Knows t.name
  | .field f => ∀ name ∈ f.mentions, c.Knows name
  | .input i => c.Knows i.type.name
  | .directive d => d ∈ KnownDirective.all
  | _ => True

-- An answer that fits the type of its question.
inductive Answers (c : Catalog) : TypeExpr → Option Answer → Prop where
  | none {type : TypeExpr} : type.nullable = true → Answers c type none
  | leaf {type : TypeExpr} {d : Datum} : d.Solid → Answers c type (some (.leaf d))
  | leaves {ds : List Datum} : (∀ d ∈ ds, d.Solid) → Answers c (.list item nonNull) (some (.leaves ds))
  | part {d : Described} : d.typeName = name → d.Sound c →
      Answers c (.named name nonNull) (some (.part d))
  | parts {ds : List Described} : (∀ d ∈ ds, d.typeName = name ∧ d.Sound c) →
      Answers c (.list (.named name true) nonNull) (some (.parts ds))

theorem Answers.text (c : Catalog) (type : TypeExpr) (s : String) :
    Answers c type (Described.text s) :=
  .leaf (.string s)

theorem Answers.flag (c : Catalog) (type : TypeExpr) (b : Bool) : Answers c type (Described.flag b) :=
  .leaf (.bool b)

theorem Answers.text? {c : Catalog} {type : TypeExpr} (nullable : type.nullable = true)
    (s : Option String) : Answers c type (Described.text? s) := by
  cases s with
  | none => exact .none nullable
  | some s => exact .text c type s

theorem Answers.inputs {c : Catalog} {nonNull : Bool} {is : List InputDef}
    (known : ∀ i ∈ is, c.Knows i.type.name) :
    Answers c (.list (.named "__InputValue" true) nonNull) (some (.parts (is.map .input))) := by
  refine .parts fun d member => ?_
  obtain ⟨i, inside, rfl⟩ := List.mem_map.mp member
  exact ⟨rfl, known i inside⟩

def questions (type : String) : List FieldDef :=
  ((Description.type? type).bind TypeDef.objectFields?).getD []

-- What holds of all questions of a describing type holds of the one that is asked.
theorem field?_forall {P : String → TypeExpr → Prop} {type name : String} {f : FieldDef}
    (found : Description.field? type name = some f)
    (all : ∀ g ∈ questions type, P g.name g.type) : P name f.type := by
  obtain ⟨t, known, field⟩ := Option.bind_eq_some_iff.mp found
  have named : f.name = name := by simpa using List.find?_some field
  rw [← named]
  refine all f ?_
  unfold questions
  rw [known]
  exact List.mem_of_find?_eq_some field

theorem field_mentions {t : TypeDef} {fields : List FieldDef} (object : t.objectFields? = some fields)
    {f : FieldDef} (member : f ∈ fields) : f.mentions ⊆ t.mentions := by
  intro name mentioned
  unfold TypeDef.objectFields? at object
  split at object
  · rename_i body
    obtain rfl := Option.some.inj object
    unfold TypeDef.mentions
    rw [body]
    exact List.mem_flatMap.mpr ⟨f, member, mentioned⟩
  · cases object

theorem input_mentions {t : TypeDef} {fields : List InputDef} (input : t.inputFields? = some fields)
    {i : InputDef} (member : i ∈ fields) : i.type.name ∈ t.mentions := by
  unfold TypeDef.inputFields? at input
  split at input
  · rename_i body
    obtain rfl := Option.some.inj input
    unfold TypeDef.mentions
    rw [body]
    exact List.mem_map_of_mem member
  · cases input

theorem values_answers (c : Catalog) (t : TypeDef) :
    Answers c (Description.listed "__EnumValue") ((valuesOf c t).map .parts) := by
  unfold valuesOf
  split
  · refine .parts fun d member => ?_
    obtain ⟨v, _, rfl⟩ := List.mem_map.mp member
    exact ⟨rfl, trivial⟩
  · exact .none rfl

theorem field_answers {c : Catalog} {f : FieldDef} (known : ∀ name ∈ f.mentions, c.Knows name) :
    ∀ g ∈ questions "__Field",
      Answers c g.type (answerField f g.name) := by
  rintro g (_ | ⟨_, _ | ⟨_, _ | ⟨_, _ | ⟨_, _ | ⟨_, _ | ⟨_, absurd⟩⟩⟩⟩⟩⟩)
  · exact .text c _ _
  · exact .text? rfl _
  · exact .inputs fun i inside => known _ (List.mem_cons_of_mem _ (List.mem_map_of_mem inside))
  · exact .part rfl (known _ List.mem_cons_self)
  · exact .flag c _ _
  · exact .none rfl
  · cases absurd

theorem input_answers {c : Catalog} {i : InputDef} (known : c.Knows i.type.name) :
    ∀ g ∈ questions "__InputValue",
      Answers c g.type (answerInput i g.name) := by
  rintro g (_ | ⟨_, _ | ⟨_, _ | ⟨_, _ | ⟨_, _ | ⟨_, _ | ⟨_, absurd⟩⟩⟩⟩⟩⟩)
  · exact .text c _ _
  · exact .text? rfl _
  · exact .part rfl known
  · exact .text? rfl _
  · exact .flag c _ _
  · exact .none rfl
  · cases absurd

theorem enumValue_answers (c : Catalog) (name : String) (description : Option String) :
    ∀ g ∈ questions "__EnumValue",
      Answers c g.type (answerEnumValue name description g.name) := by
  rintro g (_ | ⟨_, _ | ⟨_, _ | ⟨_, _ | ⟨_, absurd⟩⟩⟩⟩)
  · exact .text c _ _
  · exact .text? rfl _
  · exact .flag c _ _
  · exact .none rfl
  · cases absurd

theorem directive_arguments : ∀ d ∈ KnownDirective.all, ∀ i ∈ d.arguments,
    i.type.name ∈ builtinScalars := by decide +kernel

section

variable {c : Catalog} (closed : c.Closed)

include closed

theorem schema_answers : ∀ g ∈ questions "__Schema",
    Answers c g.type (answerSchema c g.name) := by
  rintro g (_ | ⟨_, _ | ⟨_, _ | ⟨_, _ | ⟨_, _ | ⟨_, _ | ⟨_, absurd⟩⟩⟩⟩⟩⟩)
  · exact .text c _ _
  · refine .parts fun d member => ?_
    obtain ⟨n, listed, rfl⟩ := List.mem_map.mp member
    obtain ⟨t, shown, rfl⟩ := List.mem_map.mp (Assoc.mem_of_mem_ofList listed)
    exact ⟨rfl, Catalog.knows_type (List.mem_of_mem_filter shown)⟩
  · exact .part rfl closed.query
  · change Answers c _ (c.mutation.map fun name => .part (named name))
    cases mutation : c.mutation with
    | none => exact .none rfl
    | some name => exact .part rfl (closed.mutation name mutation)
  · exact .none rfl
  · refine .parts fun d member => ?_
    obtain ⟨k, listed, rfl⟩ := List.mem_map.mp member
    exact ⟨rfl, listed⟩
  · cases absurd

theorem named_answers {t : TypeDef} (member : t ∈ c.types) :
    ∀ g ∈ questions "__Type",
      Answers c g.type (answerNamed c t g.name) := by
  rintro g (_ | ⟨_, _ | ⟨_, _ | ⟨_, _ | ⟨_, _ | ⟨_, _ | ⟨_, _ | ⟨_, _ | ⟨_, _ | ⟨_, _ | ⟨_, _ |
    ⟨_, absurd⟩⟩⟩⟩⟩⟩⟩⟩⟩⟩⟩)
  · exact .leaf (.enum _)
  · exact .text c _ _
  · exact .text? rfl _
  · change Answers c _ (t.objectFields?.map fun fields => .parts (fields.map .field))
    cases fields : t.objectFields? with
    | none => exact .none rfl
    | some fs =>
      refine .parts fun d there => ?_
      obtain ⟨f, inside, rfl⟩ := List.mem_map.mp there
      exact ⟨rfl, fun name mentioned =>
        closed.mentions t member name (field_mentions fields inside mentioned)⟩
  · change Answers c _ (t.objectFields?.map fun _ => .parts [])
    cases t.objectFields? with
    | none => exact .none rfl
    | some fs => exact .parts fun d absurd => nomatch absurd
  · exact .none rfl
  · exact values_answers c t
  · change Answers c _ (t.inputFields?.map fun fields => .parts (fields.map .input))
    cases fields : t.inputFields? with
    | none => exact .none rfl
    | some fs =>
      exact .inputs fun i inside => closed.mentions t member _ (input_mentions fields inside)
  · exact .none rfl
  · exact .none rfl
  · change Answers c _ (t.inputFields?.bind fun _ => flag false)
    cases t.inputFields? with
    | none => exact .none rfl
    | some fs => exact .flag c _ _
  · cases absurd

theorem type_answers {t : TypeExpr} (known : c.Knows t.name) :
    ∀ g ∈ questions "__Type",
      Answers c g.type (answerType c t g.name) := by
  have wrapped (kind : String) (inner : TypeExpr) (same : c.Knows inner.name) :
      ∀ g ∈ questions "__Type",
        Answers c g.type (answerWrapped kind inner g.name) := by
    rintro g (_ | ⟨_, _ | ⟨_, _ | ⟨_, _ | ⟨_, _ | ⟨_, _ | ⟨_, _ | ⟨_, _ | ⟨_, _ | ⟨_, _ | ⟨_, _ |
      ⟨_, absurd⟩⟩⟩⟩⟩⟩⟩⟩⟩⟩⟩)
    · exact .leaf (.enum _)
    iterate 7 exact .none rfl
    · exact .part rfl same
    iterate 2 exact .none rfl
    · cases absurd
  intro g member
  unfold answerType
  split
  · refine wrapped "NON_NULL" t.asNullable ?_ g member
    cases t <;> exact known
  · cases t with
    | list item nonNull => exact wrapped "LIST" item known g member
    | named name nonNull =>
      obtain ⟨t, found⟩ := Option.isSome_iff_exists.mp known
      have found : c.type? name = some t := found
      simp only [found, Option.bind_some]
      exact named_answers closed (List.mem_of_find?_eq_some found) g member

theorem directive_answers {d : KnownDirective} (listed : d ∈ KnownDirective.all) :
    ∀ g ∈ questions "__Directive",
      Answers c g.type (answerDirective d g.name) := by
  rintro g (_ | ⟨_, _ | ⟨_, _ | ⟨_, _ | ⟨_, _ | ⟨_, absurd⟩⟩⟩⟩⟩)
  · exact .text c _ _
  · exact .text c _ _
  · refine .leaves fun v member => ?_
    obtain ⟨name, _, rfl⟩ := List.mem_map.mp member
    exact .enum name
  · exact .inputs fun i inside => closed.scalars _ (directive_arguments d listed i inside)
  · exact .flag c _ _
  · cases absurd

-- What a question may not answer by null always has an answer.
theorem answers {d : Described} (sound : d.Sound c) {name : String} {f : FieldDef}
    (found : Description.field? d.typeName name = some f) : Answers c f.type (d.answer c name) := by
  refine field?_forall (P := fun name type => Answers c type (d.answer c name)) found ?_
  cases d with
  | schema => exact schema_answers closed
  | type t => exact type_answers closed sound
  | field f => exact field_answers sound
  | input i => exact input_answers sound
  | enumValue v text => exact enumValue_answers c v text
  | directive k => exact directive_answers closed sound

end

end Described

end RowGraph
