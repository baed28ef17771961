import RowGraph.Execution.Request
import RowGraph.Proofs.Schema.Derived
/-!
The keys that a request asks for are names: they start like one. A name is not the text of an index,
so the places of a response can be told apart by the texts of their segments. Main statements: every
field that is read from a text has a name for its key, and so has every field of a prepared request.
-/

namespace RowGraph

variable {α β : Type}

-- A text that starts like a name.
def Initial (text : String) : Prop := Grammar.startsName text.toList = true

namespace Grammar

theorem takeName?_initial {cs rest : List Char} {text : String}
    (taken : takeName? cs = some (text, rest)) : Initial text := by
  unfold takeName? at taken
  split at taken
  · rename_i starts
    obtain ⟨rfl, _⟩ := Prod.mk.inj (Option.some.inj taken)
    cases cs with
    | nil => cases starts
    | cons first rest =>
      change isNameStart first = true at starts
      have part : isNamePart first = true := by
        unfold isNameStart at starts
        unfold isNamePart Char.isAlphanum
        simp only [Bool.or_eq_true] at starts ⊢
        exact starts.imp_left .inl
      unfold Initial
      rw [String.toList_ofList, List.takeWhile_cons_of_pos part]
      exact starts
  · cases taken

-- Whatever a grammar reads has a property.
structure Yields (P : α → Prop) (g : Grammar α) : Prop where
  holds : ∀ {c a c'}, g c = some (a, c') → P a

namespace Yields

variable {P : α → Prop} {Q : β → Prop} {g : Grammar α}

theorem trivial (g : Grammar α) : Yields (fun _ => True) g := ⟨fun _ => True.intro⟩

theorem pure {a : α} (holds : P a) : Yields P (Pure.pure a) := by
  constructor
  intro c a' c' read
  obtain ⟨rfl, _⟩ := Prod.mk.inj (Option.some.inj read)
  exact holds

theorem fail : Yields P failure := ⟨fun read => nomatch read⟩

theorem bind {f : α → Grammar β} (first : Yields P g) (rest : ∀ a, P a → Yields Q (f a)) :
    Yields Q (g >>= f) := by
  constructor
  intro c b c' read
  obtain ⟨⟨a, next⟩, taken, read⟩ := Option.bind_eq_some_iff.mp read
  exact (rest a (first.holds taken)).holds read

-- What comes first does not matter.
theorem after {f : α → Grammar β} (rest : ∀ a, Yields Q (f a)) : Yields Q (g >>= f) :=
  (trivial g).bind fun a _ => rest a

theorem map (f : β → α) {h : Grammar β} (inside : Yields (fun b => P (f b)) h) :
    Yields P (f <$> h) := by
  rw [map_eq_pure_bind]
  exact inside.bind fun b holds => pure holds

theorem firstOf {alternatives : List (Grammar α)} (each : ∀ g ∈ alternatives, Yields P g) :
    Yields P (Grammar.firstOf alternatives) := by
  induction alternatives with
  | nil => exact fail
  | cons g rest ih =>
    constructor
    intro c a c' read
    change (g c <|> Grammar.firstOf rest c) = _ at read
    cases taken : g c with
    | none =>
      rw [taken] at read
      exact (ih fun g member => each g (List.mem_cons_of_mem _ member)).holds read
    | some found =>
      rw [taken] at read
      obtain rfl := Option.some.inj read
      exact (each g List.mem_cons_self).holds taken

theorem opt (inside : Yields P g) : Yields (fun o => ∀ a, o = some a → P a) (Grammar.opt g) := by
  constructor
  intro c o c' read a given
  unfold Grammar.opt at read
  split at read
  · rename_i found next taken
    obtain ⟨rfl, _⟩ := Prod.mk.inj (Option.some.inj read)
    obtain rfl := Option.some.inj given
    exact inside.holds taken
  · obtain ⟨rfl, _⟩ := Prod.mk.inj (Option.some.inj read)
    cases given

theorem manyFrom (inside : Yields P g) (fuel : Nat) {done as : List α} {c c' : Cursor}
    (holds : ∀ a ∈ done, P a) (read : Grammar.manyFrom g done fuel c = some (as, c')) :
    ∀ a ∈ as, P a := by
  induction fuel generalizing done c with
  | zero =>
    obtain ⟨rfl, _⟩ := Prod.mk.inj (Option.some.inj read)
    exact fun a member => holds a (List.mem_reverse.mp member)
  | succ fuel ih =>
    unfold Grammar.manyFrom at read
    split at read
    · rename_i a next taken
      refine ih (fun b member => ?_) read
      rcases List.mem_cons.mp member with rfl | earlier
      · exact inside.holds taken
      · exact holds b earlier
    · obtain ⟨rfl, _⟩ := Prod.mk.inj (Option.some.inj read)
      exact fun a member => holds a (List.mem_reverse.mp member)

theorem many (inside : Yields P g) : Yields (fun as => ∀ a ∈ as, P a) (Grammar.many g) :=
  ⟨fun read => manyFrom inside _ (by simp) read⟩

theorem many1 (inside : Yields P g) : Yields (fun as => ∀ a ∈ as, P a) (Grammar.many1 g) := by
  apply inside.bind
  intro a holds
  apply inside.many.bind
  intro rest later
  exact pure (List.forall_mem_cons.mpr ⟨holds, later⟩)

theorem between (opening closing : Char) (inside : Yields P g) :
    Yields P (Grammar.between opening closing g) :=
  after fun _ => inside.bind fun _ holds => after fun _ => pure holds

theorem name : Yields Initial Grammar.name := by
  constructor
  intro c a c' read
  obtain ⟨⟨text, rest⟩, taken, same⟩ := Option.map_eq_some_iff.mp read
  obtain ⟨rfl, _⟩ := Prod.mk.inj same
  exact takeName?_initial taken

end Yields

end Grammar

namespace Selection

mutual

-- The fields of a selection, at any depth.
def heads : Selection → List FieldHead
  | .field head _ selections => head :: headsAll selections
  | .spread _ _ _ => []
  | .inline _ _ _ _ selections => headsAll selections

def headsAll : List Selection → List FieldHead
  | [] => []
  | s :: rest => heads s ++ headsAll rest

end

theorem mem_headsAll {selections : List Selection} {head : FieldHead} :
    head ∈ headsAll selections ↔ ∃ s ∈ selections, head ∈ heads s := by
  induction selections with
  | nil => simp [headsAll]
  | cons s rest ih => simp [headsAll, ih]

-- The keys of all fields are names.
def Keyed (s : Selection) : Prop := ∀ head ∈ heads s, Initial head.key

theorem keyedAll {selections : List Selection} (each : ∀ s ∈ selections, Keyed s) :
    ∀ head ∈ headsAll selections, Initial head.key := by
  intro head member
  obtain ⟨s, selected, inside⟩ := mem_headsAll.mp member
  exact each s selected head inside

end Selection

namespace Query

open Grammar

theorem fieldHead_yields : Yields (fun head : FieldHead => Initial head.key) fieldHead := by
  apply Yields.after
  intro loc
  have labelled : Yields Initial (do
      let label ← Grammar.name
      symbol ':'
      pure label) := Yields.name.bind fun label starts => .after fun _ => .pure starts
  apply labelled.opt.bind
  intro label starts
  apply Yields.name.bind
  intro name named
  refine .after fun arguments => .after fun directives => .pure ?_
  cases label with
  | none => exact named
  | some label => exact starts label rfl

theorem spread_yields : Yields Selection.Keyed spread :=
  .after fun _ => .after fun _ => .after fun _ => .after fun _ => .after fun _ =>
    .pure fun _ absurd => nomatch absurd

-- What selection sets, fields and groups are read as, along the fuel.
theorem selections_yield (fuel : Nat) :
    Yields (fun found => ∀ s ∈ found.2, Selection.Keyed s) (selectionSet fuel) ∧
    Yields Selection.Keyed (field fuel) ∧ Yields Selection.Keyed (inline fuel) := by
  induction fuel with
  | zero => exact ⟨.fail, .fail, .fail⟩
  | succ fuel ih =>
    obtain ⟨sets, fields, groups⟩ := ih
    refine ⟨.after fun loc => ?_, ?_, ?_⟩
    · have one : Yields Selection.Keyed (firstOf [field fuel, inline fuel, spread]) := by
        refine .firstOf fun g member => ?_
        simp only [List.mem_cons, List.not_mem_nil, or_false] at member
        rcases member with rfl | rfl | rfl
        · exact fields
        · exact groups
        · exact spread_yields
      exact (one.many1.between _ _).bind fun selections keyed => .pure keyed
    · refine fieldHead_yields.bind fun head named => sets.opt.bind fun found keyed => ?_
      split
      · rename_i brace selections
        refine .pure (List.forall_mem_cons.mpr ⟨named, ?_⟩)
        exact Selection.keyedAll (keyed _ rfl)
      · exact .pure (List.forall_mem_cons.mpr ⟨named, fun _ absurd => nomatch absurd⟩)
    · refine .after fun loc => .after fun _ => .after fun on => .after fun directives => ?_
      exact sets.bind fun found keyed => .pure (Selection.keyedAll keyed)

theorem selections_yields :
    Yields (fun found => ∀ head ∈ Selection.headsAll found.2, Initial head.key) selections := by
  constructor
  intro c found c' read
  exact Selection.keyedAll ((selections_yield _).1.holds read)

-- The fields of an operation or a fragment have names for their keys.
def Part.Keyed : Part → Prop
  | .operation o => ∀ head ∈ Selection.headsAll o.selections, Initial head.key
  | .fragment f => ∀ head ∈ Selection.headsAll f.selections, Initial head.key

theorem part_yields : Yields Part.Keyed part := by
  refine .firstOf fun g member => ?_
  simp only [List.mem_cons, List.not_mem_nil, or_false] at member
  rcases member with rfl | rfl | rfl
  · apply Yields.map
    refine .after fun _ => .after fun _ => .after fun _ => .after fun _ => .after fun _ => ?_
    exact selections_yields.bind fun found keyed => .pure keyed
  · apply Yields.map
    exact .after fun _ => selections_yields.bind fun found keyed => .pure keyed
  · apply Yields.map
    refine .after fun _ => .after fun _ => .after fun _ => .after fun _ => .after fun _ => ?_
    exact selections_yields.bind fun found keyed => .pure keyed

-- All fields of a request have names for their keys.
structure Keyed (q : Query) : Prop where
  operations : ∀ o ∈ q.operations, ∀ head ∈ Selection.headsAll o.selections, Initial head.key
  fragments : ∀ f ∈ q.fragments, ∀ head ∈ Selection.headsAll f.selections, Initial head.key

theorem read_keyed {source : String} {q : Query} (read : read? source = some q) : q.Keyed := by
  obtain ⟨parts, ran, read⟩ := Option.bind_eq_some_iff.mp read
  obtain ⟨⟨parts', c⟩, taken, ran⟩ := Option.bind_eq_some_iff.mp ran
  have keyed := part_yields.many1.holds taken
  change (if c.skip.rest.isEmpty then some parts' else none) = some parts at ran
  split at ran
  · obtain rfl := Option.some.inj ran
    dsimp only at read
    split at read
    · obtain rfl := Option.some.inj read
      constructor
      · intro o member
        obtain ⟨part, inside, found⟩ := List.mem_filterMap.mp member
        cases part with
        | operation o' => exact Option.some.inj found ▸ keyed _ inside
        | fragment f => cases found
      · intro f member
        obtain ⟨part, inside, found⟩ := List.mem_filterMap.mp member
        cases part with
        | operation o => cases found
        | fragment f' => exact Option.some.inj found ▸ keyed _ inside
    · cases read
  · cases ran

end Query

namespace Node

mutual

-- The fields of a selection tree, at any depth.
def heads : Node → List FieldHead
  | .field head children => head :: headsAll children
  | .group _ _ children => headsAll children

def headsAll : List Node → List FieldHead
  | [] => []
  | n :: rest => heads n ++ headsAll rest

end

theorem mem_headsAll {nodes : List Node} {head : FieldHead} :
    head ∈ headsAll nodes ↔ ∃ n ∈ nodes, head ∈ heads n := by
  induction nodes with
  | nil => simp [headsAll]
  | cons n rest ih => simp [headsAll, ih]

theorem mapM_mem {ε : Type} {f : α → Except ε β} {as : List α} {bs : List β}
    (accepted : as.mapM f = .ok bs) {b : β} (member : b ∈ bs) : ∃ a ∈ as, f a = .ok b :=
  mem_of_forall₂ (Document.mapM_forall₂ accepted).flip member

-- Unfolding writes out fields that the request has.
theorem unfold_heads {q : Query} {p : FieldHead → Prop}
    (fragments : ∀ f ∈ q.fragments, ∀ head ∈ Selection.headsAll f.selections, p head)
    (levels : Nat) {brace : Location} {selections : List Selection} {nodes : List Node}
    (all : ∀ head ∈ Selection.headsAll selections, p head)
    (unfolded : unfold q levels brace selections = .ok nodes) : ∀ head ∈ headsAll nodes, p head := by
  induction levels generalizing brace selections nodes with
  | zero => cases unfolded
  | succ levels ih =>
    intro head member
    obtain ⟨n, inside, member⟩ := mem_headsAll.mp member
    obtain ⟨s, selected, made⟩ := mapM_mem unfolded inside
    have own (head : FieldHead) (member : head ∈ Selection.heads s) : p head :=
      all head (Selection.mem_headsAll.mpr ⟨s, selected, member⟩)
    -- What stands inside is unfolded with one level less.
    have nested {make : List Node → Node} {brace : Location} {selections : List Selection}
        (all : ∀ head ∈ Selection.headsAll selections, p head)
        (made : (unfold q levels brace selections).map make = .ok n) :
        ∃ children, n = make children ∧ ∀ head ∈ headsAll children, p head := by
      cases found : unfold q levels brace selections with
      | error e => rw [found] at made; cases made
      | ok children =>
        rw [found] at made
        exact ⟨children, (Except.ok.inj made).symm, ih all found⟩
    cases s with
    | field head' brace' selections' =>
      have first : p head' := own head' List.mem_cons_self
      simp only [ofSelection] at made
      split at made
      · obtain rfl := Except.ok.inj made
        obtain rfl : head = head' := by simpa [heads, headsAll] using member
        exact first
      · obtain ⟨children, rfl, below⟩ :=
          nested (fun h inside => own h (List.mem_cons_of_mem _ inside)) made
        rcases List.mem_cons.mp member with rfl | later
        · exact first
        · exact below head later
    | spread name directives loc =>
      simp only [ofSelection] at made
      split at made
      · rename_i f found
        obtain ⟨children, rfl, below⟩ :=
          nested (fragments f (List.mem_of_find?_eq_some found)) made
        exact below head member
      · obtain rfl := Except.ok.inj made
        cases member
    | inline condition directives loc brace' selections' =>
      obtain ⟨children, rfl, below⟩ := nested own made
      exact below head member

mutual

theorem heads_prune (values : List (String × Datum)) : ∀ n : Node,
    (prune values n).heads ⊆ n.heads
  | .field head children => by
    unfold prune heads
    exact List.cons_subset_cons _ (headsAll_prune values children)
  | .group on directives children => by
    unfold prune heads
    exact headsAll_prune values children

theorem headsAll_prune (values : List (String × Datum)) : ∀ nodes : List Node,
    headsAll (pruneAll values nodes) ⊆ headsAll nodes
  | [] => fun _ absurd => absurd
  | n :: rest => by
    have later := headsAll_prune values rest
    unfold pruneAll
    split
    · exact List.subset_append_of_subset_right _ later
    · exact List.append_subset.mpr
        ⟨List.subset_append_of_subset_left _ (heads_prune values n),
          List.subset_append_of_subset_right _ later⟩

end

-- The keys of all fields are names.
def Keyed (nodes : List Node) : Prop := ∀ head ∈ headsAll nodes, Initial head.key

end Node

namespace Request

theorem choose_mem {wanted : Option String} {operations : List Measured} {m : Measured}
    (chosen : choose wanted operations = .ok m) : m ∈ operations := by
  unfold choose at chosen
  cases wanted with
  | some name =>
    dsimp only at chosen
    split at chosen
    · rename_i m' found
      exact Except.ok.inj chosen ▸ List.mem_of_find?_eq_some found
    · cases chosen
  | none =>
    dsimp only at chosen
    split at chosen
    · exact Except.ok.inj chosen ▸ List.mem_singleton_self _
    · cases chosen

-- What a prepared request has gone through.
theorem prepare_ok {s : Schema} {request : Request} {m : Measured}
    (prepared : request.prepare s = .ok m) :
    ∃ q operations chosen, Query.read? request.source = some q ∧
      q.operations.mapM (measure q) = .ok operations ∧
      choose request.operation operations = .ok chosen ∧
      m = { chosen with nodes := Node.pruneAll request.values chosen.nodes } := by
  unfold prepare at prepared
  dsimp only at prepared
  split at prepared
  case h_2 => cases prepared
  rename_i q read
  obtain ⟨_, same, prepared⟩ := Document.bind_ok prepared
  obtain rfl := Except.ok.inj same
  obtain ⟨operations, measured, prepared⟩ := Document.bind_ok prepared
  obtain ⟨_, _, prepared⟩ := Document.bind_ok prepared
  obtain ⟨_, _, prepared⟩ := Document.bind_ok prepared
  obtain ⟨chosen, found, prepared⟩ := Document.bind_ok prepared
  exact ⟨q, operations, chosen, read, measured, found, (Except.ok.inj prepared).symm⟩

-- What is so for all fields of a request is so for those that are left of it.
theorem prepare_heads {s : Schema} {request : Request} {m : Measured}
    (prepared : request.prepare s = .ok m) {p : FieldHead → Prop}
    (all : ∀ q, Query.read? request.source = some q →
      (∀ o ∈ q.operations, ∀ head ∈ Selection.headsAll o.selections, p head) ∧
        ∀ f ∈ q.fragments, ∀ head ∈ Selection.headsAll f.selections, p head) :
    ∀ head ∈ Node.headsAll m.nodes, p head := by
  obtain ⟨q, operations, chosen, read, measured, found, rfl⟩ := prepare_ok prepared
  obtain ⟨own, fragments⟩ := all q read
  obtain ⟨o, member, made⟩ := Node.mapM_mem measured (choose_mem found)
  unfold measure at made
  split at made
  · rename_i nodes unfolded
    obtain rfl := Except.ok.inj made
    have each := Node.unfold_heads fragments _ (own o member) unfolded
    exact fun head inside => each head (Node.headsAll_prune _ _ inside)
  · cases made

-- All fields of a prepared request have names for their keys.
theorem prepare_keyed {s : Schema} {request : Request} {m : Measured}
    (prepared : request.prepare s = .ok m) : Node.Keyed m.nodes :=
  prepare_heads prepared fun _ read =>
    have keyed := Query.read_keyed read
    ⟨keyed.operations, keyed.fragments⟩

end Request

-- A segment as a text.
def Segment.text : Segment → String
  | .field key => key
  | .index i => toString i

-- The keys on a path are asked for by selections.
def Path.Asked (nodes : List Node) (p : Path) : Prop :=
  ∀ key, .field key ∈ p → ∃ head ∈ Node.headsAll nodes, head.key = key

namespace Segment

-- No index is written like a name.
theorem index_not_initial (i : Nat) : ¬ Initial (toString i) := by
  intro starts
  unfold Initial at starts
  rw [Nat.toString_eq_ofList_toDigits, String.toList_ofList] at starts
  have digits {c : Char} (member : c ∈ Nat.toDigits 10 i) : c.isDigit :=
    Nat.isDigit_of_mem_toDigits (by decide) (by decide) member
  cases written : Nat.toDigits 10 i with
  | nil => exact Nat.toDigits_ne_nil written
  | cons c rest =>
    rw [written] at starts
    have digit := digits (written ▸ List.mem_cons_self)
    change Grammar.isNameStart c = true at starts
    unfold Grammar.isNameStart Char.isAlpha Char.isUpper Char.isLower at starts
    simp only [Char.isDigit, Bool.or_eq_true, Bool.and_eq_true, decide_eq_true_eq] at starts digit
    rcases starts with (upper | lower) | rfl
    · grind
    · grind
    · grind

theorem index_inj {i j : Nat} (same : toString i = toString j) : i = j := by
  rw [Nat.toString_eq_ofList_toDigits, Nat.toString_eq_ofList_toDigits, String.ofList_inj] at same
  have read (n : Nat) := Nat.ofDigitChars_toDigits (b := 10) (n := n) (by decide) (by decide)
  rw [← read i, same, read]

theorem text_inj {s s' : Segment} (named : ∀ key, s = .field key → Initial key)
    (named' : ∀ key, s' = .field key → Initial key) (same : s.text = s'.text) : s = s' := by
  cases s with
  | field key =>
    cases s' with
    | field key' => exact congrArg field same
    | index i =>
      change key = toString i at same
      exact absurd (named key rfl) (same ▸ index_not_initial i)
  | index i =>
    cases s' with
    | field key' =>
      change toString i = key' at same
      exact absurd (named' key' rfl) (same ▸ index_not_initial i)
    | index j => exact congrArg index (index_inj same)

end Segment

-- Two paths that are asked for are told apart by the texts of their segments.
theorem Node.Keyed.texts_inj {nodes : List Node} (keyed : Keyed nodes) {p q : Path}
    (asked : p.Asked nodes) (asked' : q.Asked nodes)
    (same : p.map Segment.text = q.map Segment.text) : p = q := by
  have named {p : Path} (asked : p.Asked nodes) {s : Segment} (member : s ∈ p) (key : String)
      (field : s = .field key) : Initial key := by
    obtain ⟨head, inside, rfl⟩ := asked key (field ▸ member)
    exact keyed head inside
  induction p generalizing q with
  | nil => exact (List.map_eq_nil_iff.mp same.symm).symm
  | cons s rest ih =>
    cases q with
    | nil => cases same
    | cons s' rest' =>
      obtain ⟨first, later⟩ := List.cons.inj same
      have here : s = s' := Segment.text_inj (named asked List.mem_cons_self)
        (named asked' List.mem_cons_self) first
      have there : rest = rest' :=
        ih (fun key member => asked key (List.mem_cons_of_mem _ member))
          (fun key member => asked' key (List.mem_cons_of_mem _ member)) later
      rw [here, there]

end RowGraph
