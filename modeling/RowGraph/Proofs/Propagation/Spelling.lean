import RowGraph.Proofs.Language.Names
import RowGraph.Proofs.Schema.Hooked
import RowGraph.Proofs.Schema.Analysis
/-!
Types by their texts. A position that is left by an error knows its own type and the type around it
as they are written, and tells from the last character whether it may be null and from the first
one whether it is an element of a list; the resolvers ask the types themselves. Both agree as long
as types are called by names, and a document calls them by nothing else. Main statement: the texts
say what the types are, and a field that is propagated by texts is the field.
-/

namespace RowGraph

-- A text that is a name as a whole.
structure IsName (text : String) : Prop where
  starts : Initial text
  parts : ∀ c ∈ text.toList, Grammar.isNamePart c = true

instance (text : String) : Decidable (IsName text) :=
  decidable_of_iff (Grammar.startsName text.toList && text.toList.all Grammar.isNamePart) <| by
    rw [Bool.and_eq_true, List.all_eq_true]
    exact ⟨fun ⟨starts, parts⟩ => ⟨starts, parts⟩, fun ⟨starts, parts⟩ => ⟨starts, parts⟩⟩

namespace IsName

variable {name : String}

theorem head_ne (named : IsName name) : name.toList.head? ≠ some '[' := by
  intro first
  have part := named.parts '[' (List.mem_of_head? first)
  exact absurd part (by decide)

theorem last_ne (named : IsName name) : name.toList.getLast? ≠ some '!' := by
  intro last
  have part := named.parts '!' (List.mem_of_getLast? last)
  exact absurd part (by decide)

theorem startsWith (named : IsName name) : name.startsWith '[' = false := by
  rw [String.startsWith_char_eq_head?, beq_eq_false_iff_ne]
  exact named.head_ne

end IsName

namespace TypeExpr

-- What stands in front of the mark.
def body : TypeExpr → List Char
  | .named name _ => name.toList
  | .list item _ => '[' :: (item.chars ++ [']'])

theorem chars_eq (t : TypeExpr) : t.chars = t.body ++ mark t.nonNull := by
  cases t with
  | named name nonNull => rfl
  | list item nonNull => simp [chars, body, TypeExpr.nonNull]

theorem chars_toRef (t : TypeExpr) : t.toRef.chars = t.chars := by
  have marked (nonNull : Bool) (r : TypeRef) :
      (TypeRef.marked nonNull r).chars = r.chars ++ mark nonNull := by
    cases nonNull with
    | false => exact (List.append_nil _).symm
    | true => rfl
  induction t with
  | named name nonNull => exact marked nonNull (.named name)
  | list item nonNull ih =>
    calc (list item nonNull).toRef.chars
        = '[' :: (item.toRef.chars ++ [']']) ++ mark nonNull := marked nonNull (.list item.toRef)
      _ = '[' :: (item.chars ++ [']']) ++ mark nonNull := by rw [ih]
      _ = (list item nonNull).chars := (chars_eq (list item nonNull)).symm

theorem text_toRef (t : TypeExpr) : t.toRef.text = t.text := congrArg String.ofList (chars_toRef t)

example : (TypeExpr.list (.named "Book" true) false).toRef.text = "[Book!]" := rfl

theorem body_last {t : TypeExpr} (named : IsName t.name) : t.body.getLast? ≠ some '!' := by
  cases t with
  | named name nonNull => exact named.last_ne
  | list item nonNull =>
    rw [body, ← List.cons_append, List.getLast?_concat]
    decide

theorem chars_last {t : TypeExpr} (named : IsName t.name) :
    (t.chars.getLast? == some '!') = t.nonNull := by
  rw [chars_eq]
  cases t.nonNull with
  | true =>
    rw [mark, if_pos rfl, List.getLast?_concat]
    rfl
  | false =>
    rw [mark, if_neg Bool.false_ne_true, List.append_nil, beq_eq_false_iff_ne]
    exact body_last named

theorem body_head {t : TypeExpr} (named : IsName t.name) :
    t.body ≠ [] ∧ (t.body.head? == some '[') = t.isList := by
  cases t with
  | named name nonNull =>
    refine ⟨fun empty => ?_, beq_eq_false_iff_ne.mpr named.head_ne⟩
    have starts : Grammar.startsName name.toList = true := named.starts
    rw [show name.toList = [] from empty] at starts
    cases starts
  | list item nonNull => exact ⟨List.cons_ne_nil _ _, rfl⟩

theorem chars_head {t : TypeExpr} (named : IsName t.name) :
    (t.chars.head? == some '[') = t.isList := by
  obtain ⟨full, first⟩ := body_head named
  rw [chars_eq, List.head?_append_of_ne_nil _ full]
  exact first

theorem endsWith_text {t : TypeExpr} (named : IsName t.name) :
    t.toRef.text.endsWith '!' = t.nonNull := by
  rw [text_toRef, String.endsWith_char_eq_getLast?, text, String.toList_ofList]
  exact chars_last named

theorem startsWith_text {t : TypeExpr} (named : IsName t.name) :
    t.toRef.text.startsWith '[' = t.isList := by
  rw [text_toRef, String.startsWith_char_eq_head?, text, String.toList_ofList]
  exact chars_head named

theorem unmarked {t : TypeExpr} (named : IsName t.name) :
    (if t.chars.getLast? == some '!' then t.chars.dropLast else t.chars) = t.body := by
  rw [chars_last named, chars_eq]
  cases t.nonNull with
  | true => exact List.dropLast_concat
  | false => exact List.append_nil _

-- By induction on the type: `read?` takes off the mark and the brackets that the text of a list has
-- around the text of its items. A name has neither, so it is not taken for a list.
theorem readChars_chars {t : TypeExpr} (named : IsName t.name) : readChars t.chars = some t := by
  induction t with
  | named name nonNull =>
    have body := unmarked (t := .named name nonNull) named
    rw [readChars]
    split
    · rename_i rest bracket
      have first : name.toList = '[' :: rest := body.symm.trans bracket
      exact absurd (first ▸ rfl) named.head_ne
    · rw [body, chars_last named]
      exact congrArg (fun n => some (TypeExpr.named n nonNull)) String.ofList_toList
  | list item nonNull ih =>
    have body := unmarked (t := .list item nonNull) named
    rw [readChars]
    split
    · rename_i rest bracket
      obtain rfl : item.chars ++ [']'] = rest := (List.cons.inj (body.symm.trans bracket)).2
      rw [chars_last named, List.getLast?_concat, if_pos (by decide), List.dropLast_concat, ih named]
      rfl
    · rename_i other
      exact absurd body (other _)

theorem read?_text {t : TypeExpr} (named : IsName t.name) : read? t.toRef.text = some t := by
  rw [text_toRef, read?, text, String.toList_ofList]
  exact readChars_chars named

end TypeExpr

namespace Grammar

theorem takeName?_isName {cs rest : List Char} {text : String}
    (taken : takeName? cs = some (text, rest)) : IsName text := by
  have starts := takeName?_initial taken
  unfold takeName? at taken
  split at taken
  · obtain ⟨rfl, _⟩ := Prod.mk.inj (Option.some.inj taken)
    refine ⟨starts, fun c inside => ?_⟩
    rw [String.toList_ofList] at inside
    exact List.all_eq_true.mp List.all_takeWhile c inside
  · cases taken

theorem takeType?_isName {fuel : Nat} {cs rest : List Char} {t : TypeExpr}
    (taken : takeType? fuel cs = some (t, rest)) : IsName t.name := by
  fun_induction takeType? fuel cs generalizing t rest with
  | case1 => cases taken
  | case2 fuel cs ih =>
    obtain ⟨⟨item, after⟩, inside, taken⟩ := Option.bind_eq_some_iff.mp taken
    split at taken
    · rename_i same
      obtain ⟨rfl, _⟩ := Prod.mk.inj same
      obtain ⟨rfl, _⟩ := Prod.mk.inj (Option.some.inj taken)
      have below := ih inside
      exact below
    · cases taken
  | case3 fuel cs other =>
    obtain ⟨⟨name, after⟩, inside, taken⟩ := Option.bind_eq_some_iff.mp taken
    obtain ⟨rfl, _⟩ := Prod.mk.inj (Option.some.inj taken)
    exact takeName?_isName inside

namespace Yields

variable {P : α → Prop} {g : Grammar α}

theorem lexeme {take? : List Char → Option (α × List Char)}
    (taken : ∀ {cs a rest}, take? cs = some (a, rest) → P a) : Yields P (Grammar.lexeme take?) := by
  constructor
  intro c a c' read
  obtain ⟨⟨a, rest⟩, found, same⟩ := Option.map_eq_some_iff.mp read
  obtain ⟨rfl, _⟩ := Prod.mk.inj same
  exact taken found

theorem isName : Yields IsName Grammar.name := lexeme takeName?_isName

theorem typeExpr : Yields (fun t => IsName t.name) Grammar.typeExpr := lexeme takeType?_isName

theorem block (opening closing : Char) (inside : Yields P g) :
    Yields (fun as => ∀ a ∈ as, P a) (Grammar.block opening closing g) := by
  refine (inside.many1.between _ _).opt.bind fun found holds => .pure ?_
  cases found with
  | none => exact fun _ absurd => nomatch absurd
  | some as => exact holds as rfl

end Yields

end Grammar

-- A type and the types of its fields are called by names.
structure TypeDef.Spelled (t : TypeDef) : Prop where
  name : IsName t.name
  fields : ∀ f ∈ t.objectFields?.getD [], IsName f.type.name

instance (t : TypeDef) : Decidable t.Spelled :=
  decidable_of_iff (IsName t.name ∧ ∀ f ∈ t.objectFields?.getD [], IsName f.type.name)
    ⟨fun ⟨name, fields⟩ => ⟨name, fields⟩, fun ⟨name, fields⟩ => ⟨name, fields⟩⟩

namespace Definition

open Grammar

-- The types that are defined are spelled with names.
def Spelled (d : Definition) : Prop := ∀ t ∈ d.types, t.Spelled

theorem fieldDef_yields : Grammar.Yields (fun f : FieldDef => IsName f.type.name) fieldDef := by
  refine .after fun _ => .after fun _ => .after fun _ => .after fun _ => ?_
  exact Yields.typeExpr.bind fun type named => .after fun _ => .pure named

theorem typeBody_yields (kind : String) :
    Grammar.Yields (fun found => ∀ t : TypeDef, t.body = found.1 → IsName t.name → t.Spelled)
      (typeBody kind) := by
  have fieldless {b : TypeBody} (other : ∀ fields, b ≠ .object fields) (t : TypeDef)
      (same : t.body = b) (named : IsName t.name) : t.Spelled := by
    refine ⟨named, fun f inside => ?_⟩
    unfold TypeDef.objectFields? at inside
    split at inside
    · rename_i fields object
      exact absurd (same.symm.trans object) (other fields)
    · cases inside
  unfold typeBody
  split
  · exact .after fun _ => .pure (fieldless (by simp))
  · refine .after fun _ => .after fun _ => (fieldDef_yields.block _ _).bind fun fields typed => ?_
    refine .pure fun t same named => ⟨named, fun f inside => typed f ?_⟩
    unfold TypeDef.objectFields? at inside
    rwa [show t.body = .object fields from same] at inside
  · exact .after fun _ => .after fun _ => .after fun _ => .pure (fieldless (by simp))
  · exact .after fun _ => .after fun _ => .pure (fieldless (by simp))
  · exact .after fun _ => .after fun _ => .pure (fieldless (by simp))
  · exact .after fun _ => .after fun _ => .pure (fieldless (by simp))
  · exact .fail

theorem definition_yields : Grammar.Yields Spelled definition := by
  have untyped {d : Definition} (none : d.types = []) : d.Spelled := by
    intro t inside
    rw [none] at inside
    cases inside
  refine .firstOf fun g member => ?_
  simp only [List.mem_cons, List.not_mem_nil, or_false] at member
  rcases member with rfl | rfl | rfl | rfl | rfl
  · refine .after fun _ => .after fun _ => .after fun d => ?_
    split
    · exact .after fun _ => .pure (untyped rfl)
    · exact .pure (untyped rfl)
  · refine .after fun _ => .after fun _ => .after fun _ => .after fun d => ?_
    split
    · exact .after fun _ => .pure (untyped rfl)
    · exact .pure (untyped rfl)
  · refine .after fun _ => .after fun kind => Yields.isName.bind fun name named => ?_
    refine (typeBody_yields kind).bind fun found spelled => .pure fun t inside => ?_
    obtain rfl := List.mem_singleton.mp inside
    exact spelled _ rfl named
  · refine .after fun _ => .after fun kind => Yields.isName.bind fun name named => ?_
    refine (typeBody_yields kind).bind fun found spelled => ?_
    have extended : Spelled (.type ⟨name, found.1, true, none⟩) := fun t inside => by
      obtain rfl := List.mem_singleton.mp inside
      exact spelled _ rfl named
    dsimp only
    split
    · exact .after fun _ => .pure extended
    · exact .pure extended
  · exact .after fun _ => .after fun _ => .after fun _ => .after fun _ => .after fun _ =>
      .after fun _ => .after fun _ => .after fun _ => .pure (untyped rfl)

-- A read text defines its types with names.
theorem readAll?_spelled {source : String} {defs : List Definition}
    (read : readAll? source = some defs) : ∀ d ∈ defs, d.Spelled := by
  obtain ⟨⟨defs', c⟩, taken, ran⟩ := Option.bind_eq_some_iff.mp read
  change (if c.skip.rest.isEmpty then some defs' else none) = some defs at ran
  split at ran
  · obtain rfl := Option.some.inj ran
    exact definition_yields.many1.holds taken
  · cases ran

end Definition

theorem Document.read_spelled {source : String} {d : Document} (accepted : read source = .ok d) :
    ∀ t ∈ d.types, t.Spelled := by
  unfold read at accepted
  split at accepted
  · rename_i defs found
    intro t member
    rw [(ofDefinitions_admits accepted).2] at member
    obtain ⟨definition, inside, member⟩ := List.mem_flatMap.mp member
    exact Definition.readAll?_spelled found definition inside t member
  · cases accepted

namespace TypeDef

variable {t : TypeDef} {name : String} {f : FieldDef}

theorem Spelled.field (spelled : t.Spelled) (found : t.field? name = some f) :
    IsName f.type.name := spelled.fields f (List.mem_of_find?_eq_some found)

theorem Spelled.distinct_field (spelled : t.Spelled) (found : t.distinct.field? name = some f) :
    IsName f.type.name := by
  cases object : t.body with
  | object fields =>
    rw [field?_distinct object] at found
    obtain ⟨f, last, rfl⟩ := Option.map_eq_some_iff.mp found
    refine spelled.fields f ?_
    unfold objectFields?
    rw [object]
    exact (last?_some last).1
  | _ =>
    unfold field? objectFields? TypeDef.distinct at found
    rw [object] at found
    cases found

end TypeDef

theorem Description.types_spelled : ∀ t ∈ types, t.Spelled := by decide +kernel

theorem Catalog.scalars_spelled : ∀ t ∈ scalars, t.Spelled := by decide +kernel

-- All types of a schema are called by names, and so are the types of their fields.
theorem Schema.Built.names {s : Schema} (built : s.Built) {t : TypeDef}
    (known : t ∈ s.catalog.types) :
    IsName t.name ∧ ∀ name f, t.field? name = some f → IsName f.type.name := by
  have catalog := built.grounded.catalog
  obtain ⟨settings, source, hooks, accepted⟩ := built
  have spelled := Document.read_spelled (Session.build_document accepted)
  rw [catalog] at known
  rcases List.mem_append.mp known with declared | builtin
  · obtain ⟨t, member, rfl⟩ := List.mem_map.mp declared
    exact ⟨(spelled t member).name, fun name f => (spelled t member).distinct_field⟩
  · have plain : t.Spelled := by
      rcases List.mem_append.mp builtin with scalar | describing
      · exact Catalog.scalars_spelled t scalar
      · split at describing
        · unfold Description.typesBeside at describing
          exact Description.types_spelled t (List.mem_of_mem_filter describing)
        · cases describing
    exact ⟨plain.name, fun name f => plain.field⟩

namespace Exec

variable {σ : Type}

-- What null propagation does at a position, of which it knows the type of what the position stands
-- in and its own type, as they are written.
def propagated (around own : String) (path : Path) (body : Exec σ (Option Datum)) :
    Exec σ (Option Datum) :=
  if around.startsWith '[' then element path (!own.endsWith '!') body
  else guard path (!own.endsWith '!') body

theorem propagated_field {around : String} {t : TypeExpr} (object : IsName around)
    (named : IsName t.name) (path : Path) (body : Exec σ (Option Datum)) :
    propagated around t.toRef.text path body = guard path t.nullable body := by
  rw [propagated, object.startsWith, TypeExpr.endsWith_text named]
  rfl

theorem propagated_item {item : TypeExpr} (named : IsName item.name) (path : Path)
    (body : Exec σ (Option Datum)) :
    propagated (TypeRef.list item.toRef).text item.toRef.text path body =
      element path item.nullable body := by
  have list : (TypeRef.list item.toRef).text.startsWith '[' = true :=
    TypeExpr.startsWith_text (t := .list item false) named
  rw [propagated, list, TypeExpr.endsWith_text named]
  rfl

end Exec

namespace Complete

variable {σ : Type}

-- The elements of a list stand in a type that is written as the items are, in brackets.
def elementsAsWritten (item : TypeRef) (path : Path) (body : Path → α → Exec σ (Option Datum)) :
    (index : Nat) → List α → Exec σ (List Datum)
  | _, [] => pure []
  | index, o :: rest => do
    let here := path ++ [.index index]
    let d ← Exec.propagated (TypeRef.list item).text item.text here (body here o)
    let ds ← elementsAsWritten item path body (index + 1) rest
    pure (d.getD .null :: ds)

-- What an outcome comes to by the type as it is served, in which every mark is a level of its own.
def outcomeAsWritten (c : Catalog) (object : ObjectData σ) (loc : Location) :
    TypeRef → Path → Option Outcome → Exec σ (Option Datum)
  | .named _, _, none => pure none
  | .list _, _, none => pure none
  | .nonNull _, path, none => fail path loc "internal: non-null types require a return value"
  | .nonNull inside, path, some o => outcomeAsWritten c object loc inside path (some o)
  | .named name, path, some o =>
    match c.type? name with
    | some t => some <$> value t object path loc o
    | none => pure none
  | .list item, path, some o =>
    let each (items : List Outcome) : Exec σ (Option Datum) :=
      (some ∘ Datum.list) <$>
        elementsAsWritten item path
          (fun here o => outcomeAsWritten c object loc item here (some o)) 0 items
    match o with
    | .list items => each items
    | .leaf (.list items) => each (items.map .leaf)
    | _ => fail path loc "internal: expects an array"

theorem elementsAsWritten_eq {item : TypeExpr} (named : IsName item.name) (path : Path)
    (body : Path → α → Exec σ (Option Datum)) (index : Nat) (as : List α) :
    elementsAsWritten item.toRef path body index as =
      elements item.nullable path body index as := by
  induction as generalizing index with
  | nil => rfl
  | cons a rest ih => simp only [elementsAsWritten, elements, Exec.propagated_item named, ih]

-- A mark says nothing of a value that is there.
theorem outcomeAsWritten_some (c : Catalog) (object : ObjectData σ) (loc : Location)
    (nonNull : Bool) (r : TypeRef) (path : Path) (o : Outcome) :
    outcomeAsWritten c object loc (.marked nonNull r) path (some o) =
      outcomeAsWritten c object loc r path (some o) := by
  cases nonNull <;> rfl

theorem outcomeAsWritten_eq {t : TypeExpr} (named : IsName t.name) (c : Catalog)
    (object : ObjectData σ) (loc : Location) (path : Path) (o : Option Outcome) :
    outcomeAsWritten c object loc t.toRef path o = outcome c object loc t path o := by
  induction t generalizing path o with
  | named name nonNull =>
    cases o with
    | none => cases nonNull <;> rfl
    | some o => exact outcomeAsWritten_some c object loc nonNull (.named name) path o
  | list item nonNull ih =>
    cases o with
    | none => cases nonNull <;> rfl
    | some o =>
      have each (items : List Outcome) :
          (some ∘ Datum.list) <$> elementsAsWritten item.toRef path
              (fun here o => outcomeAsWritten c object loc item.toRef here (some o)) 0 items =
            (some ∘ Datum.list) <$> elements item.nullable path
              (fun here o => outcome c object loc item here (some o)) 0 items := by
        have typed : IsName item.name := named
        rw [elementsAsWritten_eq typed]
        simp only [ih typed]
      rw [TypeExpr.toRef, outcomeAsWritten_some]
      cases o with
      | list items => exact each items
      | leaf d =>
        cases d with
        | list items => exact each (items.map .leaf)
        | _ => rfl
      | _ => rfl

end Complete

namespace Execution

variable {σ : Type}

-- A field as it is run by written types alone.
def fieldAsWritten (x : Execution σ) (type : TypeDef) (parent : Outcome) (path : Path)
    (head : FieldHead) (object : Complete.ObjectData σ) (f : FieldDef) : Exec σ (Option Datum) := do
  let here := path ++ [.field head.key]
  let arguments ← x.arguments f head
  Exec.propagated type.name f.type.toRef.text here do
    let o ← x.declaredField type.name f.name here head.loc arguments parent
    Complete.outcomeAsWritten x.schema.catalog object head.loc f.type.toRef here o

theorem fieldAsWritten_eq (x : Execution σ) {type : TypeDef} {f : FieldDef}
    (named : IsName type.name) (typed : IsName f.type.name) (parent : Outcome) (path : Path)
    (head : FieldHead) (object : Complete.ObjectData σ) :
    x.fieldAsWritten type parent path head object f = x.field type parent path head object f := by
  simp only [fieldAsWritten, field, Exec.propagated_field named typed,
    Complete.outcomeAsWritten_eq typed]

end Execution

-- Null propagation goes by written types, and comes to what the resolvers take from the types
-- themselves.
theorem types_told_by_text :
    (∀ t : TypeExpr, IsName t.name →
      t.toRef.text.endsWith '!' = t.nonNull ∧
      (∀ lookup shape, FieldShape.classify lookup t = .ok shape →
        shape.nonNull = t.toRef.text.endsWith '!' ∧
        ∀ table required, shape.kind = .referenceList table required →
          ∃ item nonNull, t = .list item nonNull ∧ required = item.toRef.text.endsWith '!') ∧
      (∀ item nonNull, t = .list item nonNull → item.toRef.text.endsWith '!' = item.nonNull) ∧
      t.toRef.text.startsWith '[' = t.isList ∧
      TypeExpr.read? t.toRef.text = some t) ∧
    ∀ (σ : Type) (x : Execution σ), x.schema.Built → ∀ type ∈ x.schema.catalog.types,
      type.name.startsWith '[' = false ∧
      ∀ name f, type.field? name = some f → IsName f.type.name ∧
        ∀ parent path head object,
          x.fieldAsWritten type parent path head object f =
            x.field type parent path head object f := by
  constructor
  · intro t named
    have items {item : TypeExpr} {nonNull : Bool} (list : t = .list item nonNull) :
        item.toRef.text.endsWith '!' = item.nonNull := by
      subst list
      exact TypeExpr.endsWith_text named
    refine ⟨TypeExpr.endsWith_text named, ?_, fun _ _ => items, TypeExpr.startsWith_text named,
      TypeExpr.read?_text named⟩
    intro lookup shape classified
    rw [TypeExpr.endsWith_text named]
    refine ⟨FieldShape.classify_nonNull classified, fun table required kind => ?_⟩
    obtain ⟨item, nonNull, list, same⟩ := FieldShape.classify_list classified kind
    exact ⟨item, nonNull, list, same.symm.trans (items list).symm⟩
  · intro σ x built type known
    obtain ⟨named, fields⟩ := built.names known
    refine ⟨named.startsWith, fun name f declared => ?_⟩
    have typed := fields name f declared
    refine ⟨typed, fun parent path head object => ?_⟩
    exact x.fieldAsWritten_eq named typed parent path head object

-- A list that may be null, of books that may not.
def listing : String :=
  Overview.ask "type Query" ["books(ids: [ID!]!): [Book!]"] ++
    Overview.ask "type Book" ["title: String"]

def listingLookup : TypeLookup :=
  ⟨fun name => if name = "Book" then some .table else none, fun _ => none⟩

theorem listing_told_by_text :
    let books : TypeExpr := .list (.named "Book" true) false
    IsName books.name ∧
      FieldShape.classify listingLookup books = .ok ⟨.referenceList "Book" true, false, false⟩ ∧
      books.toRef.text.endsWith '!' = false ∧ books.toRef.text.startsWith '[' = true ∧
      (∃ item nonNull, books = .list item nonNull ∧ true = item.toRef.text.endsWith '!') ∧
      TypeExpr.read? books.toRef.text = some books ∧
      ∃ (s : Schema) (type : TypeDef) (f : FieldDef), s.Built ∧ type ∈ s.catalog.types ∧
        type.name = "Query" ∧ type.field? "books" = some f ∧ f.type = books ∧
        ∀ x : Execution Memory, x.schema = s → ∀ parent path head object,
          x.fieldAsWritten type parent path head object f =
            x.field type parent path head object f := by
  intro books
  have named : IsName books.name := by decide
  have classified : FieldShape.classify listingLookup books =
      .ok ⟨.referenceList "Book" true, false, false⟩ := rfl
  obtain ⟨last, shape, _, first, back⟩ := types_told_by_text.1 books named
  have served : ((Session.build {} listing []).toOption.bind fun s =>
      (s.catalog.type? "Query").bind fun type => (type.field? "books").map fun f => f.type) =
      some books := by
    rw [Session.build_toList]
    simp only [listing, String.toList_append, Overview.toList_ask]
    decide +kernel
  obtain ⟨s, made, served⟩ := Option.bind_eq_some_iff.mp served
  obtain ⟨type, known, served⟩ := Option.bind_eq_some_iff.mp served
  obtain ⟨f, declared, typed⟩ := Option.map_eq_some_iff.mp served
  have built : s.Built := ⟨{}, listing, [], ok_of_toOption made⟩
  have member := List.mem_of_find?_eq_some known
  refine ⟨named, classified, last, first, (shape _ _ classified).2 _ _ rfl, back, s, type, f, built,
    member, by simpa using List.find?_some known, declared, typed, ?_⟩
  rintro x rfl
  exact ((types_told_by_text.2 Memory x built type member).2 "books" f declared).2

end RowGraph
