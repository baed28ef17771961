import RowGraph.Proofs.Response.Description
import RowGraph.Proofs.Schema.Kinds
/-!
What selections show. The data of a position is followed down the selections that it answers, by the
declared types on the way. Main statement: an error that was raised below a position has its null on
the way to where it was raised, unless another selection of a response key on the way was first to
show something there, and a null stands only where the declared type allows it, or in what is handed
on as it is stored.
-/

namespace RowGraph

variable {σ : Type}

-- What is shown under a response key of an object: the answer of a position, or what needs none, the
-- name of the type and the description of the schema.
inductive Puts (c : Catalog) (t : TypeDef) (asked : List Choice) (seen : List Invocation) (q : Path)
    (key : String) (d : Datum) : Prop where
  | answer {u : Visit} {shown : Option Datum} : u ∈ Invocation.visitsOf seen →
      u.place.path = q ++ [.field key] → u.answer = .ok shown → d = shown.getD .null →
      Puts c t asked seen q key d
  | typename {head : FieldHead} {children : List Node} : (head, children) ∈ asked →
      head.key = key → head.name = "__typename" → d = .string t.name → Puts c t asked seen q key d
  | description {head : FieldHead} {children : List Node} : (head, children) ∈ asked →
      head.key = key → ((c.entrances t).find? fun f => f.name = head.name).isSome = true →
      Puts c t asked seen q key d

-- On the way along a path, a response key is asked for more than once of one object, and one of the
-- selections met null where the others had something to show that is not replaced.
inductive Outdone (c : Catalog) (seen : List Invocation) :
    TypeExpr → List Node → Path → Path → Prop where
  | here {t : TypeDef} {d first : Datum} {more : List Datum} : c.type? name = some t →
      2 ≤ ((Node.shown name nodes).map Choice.key).count key →
      (∀ shown ∈ d :: first :: more, Puts c t (Node.shown name nodes) seen q key shown) →
      d.MeetsNull rest → ¬ (Datum.join (more.foldl Datum.join first) d).MeetsNull rest →
      Outdone c seen (.named name nonNull) nodes q (.field key :: rest)
  | deeper {t : TypeDef} {f : FieldDef} : c.type? name = some t →
      (head, children) ∈ Node.shown name nodes → t.field? head.name = some f →
      Outdone c seen f.type children (q ++ [.field head.key]) rest →
      Outdone c seen (.named name nonNull) nodes q (.field head.key :: rest)
  | item : Outdone c seen item nodes (q ++ [.index i]) rest →
      Outdone c seen (.list item nonNull) nodes q (.index i :: rest)

theorem Puts.mono {c : Catalog} {t : TypeDef} {asked more : List Choice} {seen later : List Invocation}
    {q : Path} {key : String} {d : Datum} (choices : asked ⊆ more)
    (visits : Invocation.visitsOf seen ⊆ Invocation.visitsOf later)
    (puts : Puts c t asked seen q key d) :
    Puts c t more later q key d := by
  cases puts with
  | answer member path answer shown => exact .answer (visits member) path answer shown
  | typename choice named same shown => exact .typename (choices choice) named same shown
  | description choice named entrance => exact .description (choices choice) named entrance

theorem Outdone.mono {c : Catalog} {seen later : List Invocation} {type : TypeExpr}
    {nodes : List Node} {q path : Path}
    (visits : Invocation.visitsOf seen ⊆ Invocation.visitsOf later)
    (outdone : Outdone c seen type nodes q path) : Outdone c later type nodes q path := by
  induction outdone with
  | here known again puts meets hidden =>
    refine .here known again (fun shown member => ?_) meets hidden
    exact (puts shown member).mono (List.Subset.refl _) visits
  | deeper known choice declared _ ih => exact .deeper known choice declared ih
  | item _ ih => exact .item ih

-- Of all that was invoked, nothing whose type does not allow it has answered that it has no value.
def Firm (seen : List Invocation) : Prop :=
  ∀ v ∈ Invocation.visitsOf seen, v.place.nullable = false → v.answer ≠ .ok none

-- What is seen of a position of a type, and what the position shows.
structure Presents (c : Catalog) (element : Bool) (type : TypeExpr) (nodes : List Node) (q : Path)
    (w : Watch σ (Option Datum)) : Prop where
  raised : ∀ v ∈ Invocation.visitsOf w.seen, v.raised.isSome = true →
    ∃ rest, v.place.path = q ++ rest ∧ ∀ d, w.result = .ok d →
      (d.getD .null).MeetsNull rest ∨ Outdone c w.seen type nodes q rest
  null : ∀ d rest, w.result = .ok d → Datum.NullAt rest (d.getD .null) →
    Tolerates c element type nodes rest
  absent : w.result = .ok none → type.nullable = true
  firm : Firm w.seen

-- The same of the elements of a list, from an index on.
structure Items (c : Catalog) (item : TypeExpr) (nodes : List Node) (q : Path) (index : Nat)
    (w : Watch σ (List Datum)) : Prop where
  raised : ∀ v ∈ Invocation.visitsOf w.seen, v.raised.isSome = true →
    ∃ i rest, v.place.path = q ++ .index (index + i) :: rest ∧ ∀ ds : List Datum, w.result = .ok ds →
      ∃ d, ds[i]? = some d ∧
        (d.MeetsNull rest ∨ Outdone c w.seen item nodes (q ++ [.index (index + i)]) rest)
  null : ∀ (ds : List Datum) (i : Nat) d rest, w.result = .ok ds → ds[i]? = some d →
    Datum.NullAt rest d → Tolerates c true item nodes rest
  firm : Firm w.seen

-- The same of fields that are asked of one object.
structure Collects (c : Catalog) (t : TypeDef) (asked : List Choice) (q : Path)
    (w : Watch σ (List (String × Datum))) : Prop where
  raised : ∀ v ∈ Invocation.visitsOf w.seen, v.raised.isSome = true →
    ∃ head children f rest, (head, children) ∈ asked ∧ t.field? head.name = some f ∧
      v.place.path = q ++ .field head.key :: rest ∧ ∀ results, w.result = .ok results →
        ∃ d, (head.key, d) ∈ results ∧
          (d.MeetsNull rest ∨ Outdone c w.seen f.type children (q ++ [.field head.key]) rest)
  keys : ∀ results, w.result = .ok results →
    (results.map (·.1)).Sublist (asked.map Choice.key)
  puts : ∀ results key d, w.result = .ok results → (key, d) ∈ results →
    Puts c t asked w.seen q key d
  null : ∀ results key d rest, w.result = .ok results → (key, d) ∈ results → Datum.NullAt rest d →
    ∃ head children, (head, children) ∈ asked ∧ head.key = key ∧
      ((∃ f, (c.entrances t).find? (fun f => f.name = head.name) = some f ∧
        (c.Plain → Tolerates c false f.type children rest)) ∨
        ∃ f, t.field? head.name = some f ∧ Tolerates c false f.type children rest)
  firm : Firm w.seen

theorem Watched.map_apply (f : α → β) (x : Watched σ α) (r : Run σ) :
    (f <$> x) r = ⟨(x r).result.map f, (x r).run, (x r).seen⟩ := by
  rw [map_eq_bind]
  cases result : (x r).result with
  | ok a =>
    rw [bind_of_ok result]
    exact congrArg _ (List.append_nil _)
  | error fault => rw [bind_of_error result]; rfl

theorem Watched.map_ok {f : α → β} {result : Except Fault α} {b : β} (made : result.map f = .ok b) :
    ∃ a, result = .ok a ∧ b = f a := by
  cases result with
  | error fault => cases made
  | ok a => exact ⟨a, rfl, (Except.ok.inj made).symm⟩

namespace Firm

theorem nil : Firm [] := fun _ absurd => nomatch absurd

theorem append {left right : List Invocation} (first : Firm left) (second : Firm right) :
    Firm (left ++ right) := by
  intro v member
  rw [Invocation.visitsOf_append] at member
  exact (List.mem_append.mp member).elim (first v) (second v)

theorem position {v : Visit} {inside : List Invocation}
    (own : v.place.nullable = false → v.answer ≠ .ok none) (rest : Firm inside) :
    Firm [.position v inside] := by
  intro u member
  rw [Invocation.visitsOf_position] at member
  rcases List.mem_cons.mp member with rfl | deeper
  · exact own
  · exact rest u deeper

end Firm

namespace Presents

variable {c : Catalog} {inList : Bool} {type : TypeExpr} {nodes : List Node} {q : Path}

-- A computation that invokes nothing.
theorem plain {w : Watch σ (Option Datum)} (seen : w.seen = [])
    (null : ∀ d rest, w.result = .ok d → Datum.NullAt rest (d.getD .null) →
      Tolerates c inList type nodes rest) (absent : w.result = .ok none → type.nullable = true) :
    Presents c inList type nodes q w := by
  refine ⟨?_, null, absent, ?_⟩
  · rw [seen]
    exact fun _ absurd => nomatch absurd
  · rw [seen]
    exact .nil

theorem failed {w : Watch σ (Option Datum)} (seen : w.seen = []) {fault : Fault}
    (result : w.result = .error fault) : Presents c inList type nodes q w := by
  refine plain seen (fun _ _ same => ?_) fun same => ?_
  · cases result.symm.trans same
  · cases result.symm.trans same

theorem nothing {w : Watch σ (Option Datum)} (seen : w.seen = []) (nullable : type.nullable = true)
    (result : w.result = .ok none) : Presents c inList type nodes q w := by
  refine plain seen (fun d rest same null => ?_) fun _ => nullable
  obtain rfl := Except.ok.inj (result.symm.trans same)
  cases null with
  | here => exact .nullable nullable

theorem answered {v : Visit} {w w' : Watch σ (Option Datum)} {d : Option Datum}
    (fresh : v.raised = none) (seen : w'.seen = [.position v w.seen])
    (result : w.result = .ok d) (result' : w'.result = .ok d)
    (own : v.place.nullable = false → v.answer ≠ .ok none)
    (inside : Presents c inList type nodes q w) : Presents c inList type nodes q w' := by
  have same : w'.result = w.result := result'.trans result.symm
  refine ⟨fun u member raised => ?_, fun d rest made => inside.null d rest (same ▸ made),
    fun made => inside.absent (same ▸ made), seen ▸ .position own inside.firm⟩
  rw [seen, Invocation.visitsOf_position] at member
  rcases List.mem_cons.mp member with rfl | deeper
  · rw [fresh] at raised
    cases raised
  · obtain ⟨rest, there, meets⟩ := inside.raised u deeper raised
    refine ⟨rest, there, fun d made => (meets d (same ▸ made)).imp_right (.mono ?_)⟩
    rw [seen, Invocation.visitsOf_position]
    exact List.subset_cons_self _ _

-- An error that is met at the end leaves the position null, if it leaves it anything.
theorem stopped {v : Visit} {w w' : Watch σ (Option Datum)}
    (seen : w'.seen = [.position v w.seen]) (path : v.place.path = q)
    (empty : ∀ d, w'.result = .ok d → d = none ∧ type.nullable = true)
    (own : v.place.nullable = false → v.answer ≠ .ok none)
    (inside : Presents c inList type nodes q w) : Presents c inList type nodes q w' := by
  have meets (rest : Path) (d : Option Datum) (made : w'.result = .ok d) :
      (d.getD .null).MeetsNull rest := by
    rw [(empty d made).1]
    exact Datum.meetsNull_null rest
  refine ⟨fun u member raised => ?_, fun d rest made null => ?_, fun made => (empty none made).2,
    seen ▸ .position own inside.firm⟩
  · rw [seen, Invocation.visitsOf_position] at member
    rcases List.mem_cons.mp member with rfl | deeper
    · exact ⟨[], by rw [List.append_nil]; exact path, fun d made => .inl (meets [] d made)⟩
    · obtain ⟨rest, there, _⟩ := inside.raised u deeper raised
      exact ⟨rest, there, fun d made => .inl (meets rest d made)⟩
  · obtain ⟨rfl, nullable⟩ := empty d made
    cases null with
    | here => exact .nullable nullable

theorem close {v : Visit} {w : Watch σ (Option Datum)} (fresh : v.raised = none)
    (path : v.place.path = q) (nullable : v.place.nullable = type.nullable)
    (inside : Presents c inList type nodes q w) :
    Presents c inList type nodes q (Watched.close v w) := by
  unfold Watched.close
  cases result : w.result with
  | ok d =>
    refine .answered (v := { v with answer := .ok d }) fresh rfl result rfl (fun strict answer => ?_)
      inside
    obtain rfl := Except.ok.inj answer
    cases (nullable.trans (inside.absent result)).symm.trans strict
  | error fault =>
    simp only
    cases loose : v.place.nullable with
    | true =>
      refine .stopped rfl path (fun d made => ?_) (fun strict => ?_) inside
      · exact ⟨(Except.ok.inj made).symm, nullable ▸ loose⟩
      · cases loose.symm.trans strict
    | false =>
      exact .stopped rfl path (fun d made => nomatch made) (fun _ answer => nomatch answer) inside

-- A mark decides an element before its body is looked at.
theorem element {body : Watched σ (Option Datum)}
    (inside : ∀ r, Presents c true type nodes q (body r)) (r : Run σ) :
    Presents c true type nodes q (Watched.element q type.nullable body r) := by
  unfold Watched.element
  rcases Exec.takeMark q r with ⟨_ | _ | e, r'⟩
  · exact close rfl rfl rfl (inside r')
  · refine close rfl rfl rfl ?_
    cases nullable : type.nullable with
    | true => exact nothing rfl nullable rfl
    | false => exact failed rfl rfl
  · exact close rfl rfl rfl (failed rfl rfl)

end Presents

namespace Items

variable {c : Catalog} {item : TypeExpr} {nodes : List Node} {q : Path}

theorem nil (index : Nat) (r : Run σ) :
    Items c item nodes q index (⟨.ok [], r, []⟩ : Watch σ (List Datum)) := by
  refine ⟨(fun _ absurd => nomatch absurd), fun ds i d rest same there => ?_, .nil⟩
  obtain rfl := Except.ok.inj same
  cases there

theorem stop {index : Nat} {w : Watch σ (Option Datum)} {fault : Fault}
    (first : Presents c true item nodes (q ++ [.index index]) w) :
    Items c item nodes q index ⟨.error fault, w.run, w.seen⟩ := by
  refine ⟨fun v member raised => ?_, (fun _ _ _ _ same => nomatch same), first.firm⟩
  obtain ⟨rest, there, _⟩ := first.raised v member raised
  refine ⟨0, rest, ?_, fun ds same => nomatch same⟩
  rw [there, List.append_assoc]
  rfl

theorem cons {index : Nat} {w : Watch σ (Option Datum)} {d : Option Datum}
    {w' : Watch σ (List Datum)} (first : Presents c true item nodes (q ++ [.index index]) w)
    (result : w.result = .ok d) (later : Items c item nodes q (index + 1) w') :
    Items c item nodes q index
      ⟨w'.result.map (d.getD .null :: ·), w'.run, w.seen ++ w'.seen⟩ := by
  have early := Invocation.visitsOf_subset_left w.seen w'.seen
  have late := Invocation.visitsOf_subset_right w.seen w'.seen
  refine ⟨fun v member raised => ?_, fun ds i d' rest same there null => ?_,
    first.firm.append later.firm⟩
  · rw [Invocation.visitsOf_append] at member
    rcases List.mem_append.mp member with here | there
    · obtain ⟨rest, path, meets⟩ := first.raised v here raised
      refine ⟨0, rest, ?_, fun ds same => ?_⟩
      · rw [path, List.append_assoc]
        rfl
      · obtain ⟨more, _, rfl⟩ := Watched.map_ok same
        exact ⟨_, rfl, (meets d result).imp_right (.mono early)⟩
    · obtain ⟨i, rest, path, meets⟩ := later.raised v there raised
      refine ⟨i + 1, rest, ?_, fun ds same => ?_⟩
      · rw [path, Nat.add_assoc, Nat.add_comm 1 i]
      · obtain ⟨more, ended, rfl⟩ := Watched.map_ok same
        rw [Nat.add_assoc, Nat.add_comm 1 i] at meets
        obtain ⟨d', found, meets⟩ := meets more ended
        exact ⟨d', found, meets.imp_right (.mono late)⟩
  · obtain ⟨more, ended, rfl⟩ := Watched.map_ok same
    cases i with
    | zero =>
      obtain rfl := Option.some.inj there
      exact first.null d rest result null
    | succ i => exact later.null more i d' rest ended there null

theorem elements {body : Path → Outcome → Watched σ (Option Datum)} (items : List Outcome)
    (inside : ∀ o ∈ items, ∀ q r, Presents c true item nodes q (body q o r)) (index : Nat)
    (r : Run σ) :
    Items c item nodes q index (Watched.elements item.nullable q body index items r) := by
  induction items generalizing index r with
  | nil => exact .nil index r
  | cons o rest ih =>
    have first := Presents.element (inside o List.mem_cons_self (q ++ [.index index])) r
    unfold Watched.elements
    cases result : (Watched.element (q ++ [.index index]) item.nullable
        (body (q ++ [.index index]) o) r).result with
    | error fault =>
      rw [Watched.bind_of_error result]
      exact .stop first
    | ok d =>
      rw [Watched.bind_of_ok result]
      have later := ih (fun o member => inside o (List.mem_cons_of_mem _ member)) (index + 1)
        (Watched.element (q ++ [.index index]) item.nullable (body (q ++ [.index index]) o) r).run
      rw [← Watched.map_eq_bind, Watched.map_apply]
      exact .cons first result later

theorem list {inList nonNull : Bool} {w : Watch σ (List Datum)} (items : Items c item nodes q 0 w) :
    Presents c inList (.list item nonNull) nodes q
      ⟨w.result.map (some ∘ Datum.list), w.run, w.seen⟩ := by
  refine ⟨fun v member raised => ?_, fun d rest same null => ?_, fun same => ?_, items.firm⟩
  · obtain ⟨i, rest, path, meets⟩ := items.raised v member raised
    refine ⟨.index i :: rest, by rw [path, Nat.zero_add], fun d same => ?_⟩
    obtain ⟨ds, made, rfl⟩ := Watched.map_ok same
    obtain ⟨d, there, meets⟩ := meets ds made
    rw [Nat.zero_add] at meets
    exact meets.imp (Datum.MeetsNull.index there) .item
  · obtain ⟨ds, made, rfl⟩ := Watched.map_ok same
    cases null with
    | index there null => exact .item (items.null ds _ _ _ made there null)
  · obtain ⟨ds, _, absurd⟩ := Watched.map_ok same
    cases absurd

end Items

namespace Collects

variable {c : Catalog} {t : TypeDef} {q : Path}

theorem plain {asked : List Choice} {w : Watch σ (List (String × Datum))} (seen : w.seen = [])
    (keys : ∀ results, w.result = .ok results →
      (results.map (·.1)).Sublist (asked.map Choice.key))
    (puts : ∀ results key d, w.result = .ok results → (key, d) ∈ results → Puts c t asked [] q key d)
    (null : ∀ results key d rest, w.result = .ok results → (key, d) ∈ results →
      ¬ Datum.NullAt rest d) : Collects c t asked q w := by
  refine ⟨?_, keys, seen ▸ puts, fun results key d rest same member some => ?_, ?_⟩
  · rw [seen]
    exact fun _ absurd => nomatch absurd
  · exact absurd some (null results key d rest same member)
  · rw [seen]
    exact .nil

theorem empty (asked : List Choice) {w : Watch σ (List (String × Datum))} (seen : w.seen = [])
    (result : w.result = .ok []) : Collects c t asked q w := by
  refine plain seen (fun results same => ?_) (fun results key d same member => ?_)
    fun results key d rest same member => ?_
  · obtain rfl := Except.ok.inj (result.symm.trans same)
    exact List.nil_sublist _
  · obtain rfl := Except.ok.inj (result.symm.trans same)
    cases member
  · obtain rfl := Except.ok.inj (result.symm.trans same)
    cases member

-- Fields before others of the same object.
theorem append {asked more : List Choice} {w w' : Watch σ (List (String × Datum))}
    {results : List (String × Datum)} (first : Collects c t asked q w)
    (result : w.result = .ok results) (later : Collects c t more q w') :
    Collects c t (asked ++ more) q
      ⟨w'.result.map (results ++ ·), w'.run, w.seen ++ w'.seen⟩ := by
  have early := Invocation.visitsOf_subset_left w.seen w'.seen
  have late := Invocation.visitsOf_subset_right w.seen w'.seen
  refine ⟨fun v member raised => ?_, fun all same => ?_, fun all key d same member => ?_,
    fun all key d rest same member null => ?_, first.firm.append later.firm⟩
  · rw [Invocation.visitsOf_append] at member
    rcases List.mem_append.mp member with here | there
    · obtain ⟨head, children, f, rest, choice, field, path, meets⟩ := first.raised v here raised
      refine ⟨head, children, f, rest, List.mem_append_left _ choice, field, path, fun all same => ?_⟩
      obtain ⟨rs, _, rfl⟩ := Watched.map_ok same
      obtain ⟨d, shown, meets⟩ := meets results result
      exact ⟨d, List.mem_append_left _ shown, meets.imp_right (.mono early)⟩
    · obtain ⟨head, children, f, rest, choice, field, path, meets⟩ := later.raised v there raised
      refine ⟨head, children, f, rest, List.mem_append_right _ choice, field, path, fun all same => ?_⟩
      obtain ⟨rs, made, rfl⟩ := Watched.map_ok same
      obtain ⟨d, shown, meets⟩ := meets rs made
      exact ⟨d, List.mem_append_right _ shown, meets.imp_right (.mono late)⟩
  · obtain ⟨rs, made, rfl⟩ := Watched.map_ok same
    rw [List.map_append, List.map_append]
    exact (first.keys results result).append (later.keys rs made)
  · obtain ⟨rs, made, rfl⟩ := Watched.map_ok same
    rcases List.mem_append.mp member with here | there
    · exact (first.puts results key d result here).mono (List.subset_append_left _ _) early
    · exact (later.puts rs key d made there).mono (List.subset_append_right _ _) late
  · obtain ⟨rs, made, rfl⟩ := Watched.map_ok same
    rcases List.mem_append.mp member with here | there
    · obtain ⟨head, children, choice, named, allowed⟩ := first.null results key d rest result here null
      exact ⟨head, children, List.mem_append_left _ choice, named, allowed⟩
    · obtain ⟨head, children, choice, named, allowed⟩ := later.null rs key d rest made there null
      exact ⟨head, children, List.mem_append_right _ choice, named, allowed⟩

-- Fields that are not reached make no difference.
theorem stop {asked : List Choice} {w : Watch σ (List (String × Datum))} (fault : Fault)
    (first : Collects c t asked q w) (more : List Choice) :
    Collects c t (asked ++ more) q ⟨.error fault, w.run, w.seen⟩ := by
  refine ⟨fun v member raised => ?_, (fun _ same => nomatch same), (fun _ _ _ same => nomatch same),
    (fun _ _ _ _ same => nomatch same), first.firm⟩
  obtain ⟨head, children, f, rest, choice, field, path, _⟩ := first.raised v member raised
  exact ⟨head, children, f, rest, List.mem_append_left _ choice, field, path,
    fun _ same => nomatch same⟩

-- One field, with what its position shows.
theorem field {head : FieldHead} {children : List Node} {f : FieldDef} {w : Watch σ (Option Datum)}
    (declared : t.field? head.name = some f)
    (answers : ∀ d, w.result = .ok d → ∃ u ∈ Invocation.visitsOf w.seen,
      u.place.path = q ++ [.field head.key] ∧ u.answer = .ok d)
    (shows : Presents c false f.type children (q ++ [.field head.key]) w) :
    Collects c t [(head, children)] q
      ⟨w.result.map fun d => [(head.key, d.getD .null)], w.run, w.seen⟩ := by
  refine ⟨fun v member raised => ?_, fun results same => ?_, fun results key d same member => ?_,
    fun results key d rest same member null => ?_, shows.firm⟩
  · obtain ⟨rest, path, meets⟩ := shows.raised v member raised
    refine ⟨head, children, f, rest, List.mem_singleton_self _, declared, ?_, fun results same => ?_⟩
    · rw [path, List.append_assoc]
      rfl
    · obtain ⟨d, made, rfl⟩ := Watched.map_ok same
      exact ⟨_, List.mem_singleton_self _, meets d made⟩
  · obtain ⟨d, _, rfl⟩ := Watched.map_ok same
    exact .refl _
  · obtain ⟨d', made, rfl⟩ := Watched.map_ok same
    obtain ⟨rfl, rfl⟩ := Prod.mk.inj (List.mem_singleton.mp member)
    obtain ⟨u, there, path, answer⟩ := answers d' made
    exact .answer there path answer rfl
  · obtain ⟨d', made, rfl⟩ := Watched.map_ok same
    obtain ⟨rfl, rfl⟩ := Prod.mk.inj (List.mem_singleton.mp member)
    exact ⟨head, children, List.mem_singleton_self _, rfl,
      .inr ⟨f, declared, shows.null d' rest made null⟩⟩

-- A look at the description of the schema invokes no position.
theorem entrance {head : FieldHead} {children : List Node} {f : FieldDef}
    {w : Watch σ (Option Datum)}
    (described : (c.entrances t).find? (fun f => f.name = head.name) = some f)
    (seen : Invocation.visitsOf w.seen = [])
    (clear : ∀ d, w.result = .ok d → c.Plain → (d.getD .null).Clear c f.type children) :
    Collects c t [(head, children)] q
      ⟨w.result.map fun d => [(head.key, d.getD .null)], w.run, w.seen⟩ := by
  refine ⟨?_, fun results same => ?_, fun results key d same member => ?_,
    fun results key d rest same member null => ?_, ?_⟩
  · rw [seen]
    exact fun _ absurd => nomatch absurd
  · obtain ⟨d, _, rfl⟩ := Watched.map_ok same
    exact .refl _
  · obtain ⟨d', _, rfl⟩ := Watched.map_ok same
    obtain ⟨rfl, rfl⟩ := Prod.mk.inj (List.mem_singleton.mp member)
    exact .description (List.mem_singleton_self _) rfl (by rw [described]; rfl)
  · obtain ⟨d', made, rfl⟩ := Watched.map_ok same
    obtain ⟨rfl, rfl⟩ := Prod.mk.inj (List.mem_singleton.mp member)
    exact ⟨head, children, List.mem_singleton_self _, rfl, .inl ⟨f, described, fun plain =>
      clear d' made plain rest null⟩⟩
  · unfold Firm
    rw [seen]
    exact fun _ absurd => nomatch absurd

-- All that is asked of an object makes up what it shows.
theorem object {name : String} {nonNull inList : Bool} {nodes : List Node}
    {w : Watch σ (List (String × Datum))} (known : c.type? name = some t)
    (all : Collects c t (Node.shown name nodes) q w) :
    Presents c inList (.named name nonNull) nodes q
      ⟨w.result.map (some ∘ Datum.ofResults), w.run, w.seen⟩ := by
  refine ⟨fun v member raised => ?_, fun d rest same null => ?_, fun same => ?_, all.firm⟩
  · obtain ⟨head, children, f, rest, choice, declared, path, meets⟩ := all.raised v member raised
    refine ⟨.field head.key :: rest, path, fun d same => ?_⟩
    obtain ⟨results, made, rfl⟩ := Watched.map_ok same
    obtain ⟨d, shown, meets | deeper⟩ := meets results made
    · obtain ⟨before, after, rfl⟩ := List.append_of_mem shown
      rcases Datum.ofResults_meets meets with meets | ⟨first, more, earlier, hidden⟩
      · exact .inl meets
      · refine .inr (.here known ?_ (fun v member => all.puts _ _ v made ?_) meets hidden)
        · have fewer := (all.keys _ made).count_le head.key
          rw [← Members.length_valuesOf, Members.valuesOf_append, earlier, Members.valuesOf_cons,
            if_pos rfl] at fewer
          simp only [List.cons_append, List.length_cons, List.length_append] at fewer
          omega
        · rcases List.mem_cons.mp member with rfl | old
          · exact shown
          · rw [← earlier] at old
            exact List.mem_append_left _ (Members.mem_valuesOf.mp old)
    · exact .inr (.deeper known choice declared deeper)
  · obtain ⟨results, made, rfl⟩ := Watched.map_ok same
    obtain ⟨key, d, rest, rfl, shown, null⟩ := Datum.ofResults_null null
    obtain ⟨head, children, choice, rfl, ⟨f, entrance, allowed⟩ | ⟨f, declared, allowed⟩⟩ :=
      all.null results key d rest made shown null
    · exact .description known choice entrance allowed
    · exact .field known choice declared allowed
  · obtain ⟨results, _, absurd⟩ := Watched.map_ok same
    cases absurd

end Collects

namespace Watched

theorem own_seen (x : Exec σ α) (r : Run σ) : (own x r).seen = [] := by
  unfold own
  rcases x r with ⟨_ | _, _⟩ <;> rfl

-- A type whose values are no objects is shown as it is delivered, or by the name of an enum value.
theorem result_leaf {t : TypeDef} (shown : t.Shown) (noObject : ∀ fields, t.body ≠ .object fields)
    {q : Path} {loc : Location} {o : Outcome} {r : Run σ} {d : Datum}
    (made : (own (Complete.value t (fun _ _ _ => pure .null) q loc o : Exec σ Datum) r).result =
      .ok d) : (∃ name, d = .enum name) ∨ t.body = .scalar ∧ o = .leaf d := by
  have left := result_own made
  cases shown with
  | object body => exact absurd body (noObject _)
  | enum body =>
    simp only [Complete.value, body, Complete.enumValue] at left
    split at left
    · split at left
      · exact .inl ⟨_, (Except.ok.inj left).symm⟩
      · cases left
    · split at left
      · exact .inl ⟨_, (Except.ok.inj left).symm⟩
      · cases left
    · cases left
  | scalar body =>
    simp only [Complete.value, body] at left
    split at left
    · exact .inr ⟨body, congrArg Outcome.leaf (Except.ok.inj left)⟩
    · cases left

end Watched

namespace Presents

variable {c : Catalog} {inList : Bool} {type : TypeExpr} {nodes : List Node} {q : Path}

theorem missing (loc : Location) (r : Run σ) :
    Presents c inList type nodes q
      (Watched.own (Complete.absent type.nonNull q loc : Exec σ (Option Datum)) r) := by
  cases strict : type.nonNull with
  | true => exact failed (Watched.own_seen _ r) rfl
  | false => exact nothing (Watched.own_seen _ r) (by rw [TypeExpr.nullable, strict]; rfl) rfl

theorem leaf {name : String} {nonNull : Bool} {t : TypeDef} (known : c.type? name = some t)
    (shown : t.Shown) (noObject : ∀ fields, t.body ≠ .object fields) (loc : Location) {o : Outcome}
    (solid : inList = false → o ≠ .leaf .null) (r : Run σ) :
    Presents c inList (.named name nonNull) nodes q
      ((some <$> Watched.own (Complete.value t (fun _ _ _ => pure .null) q loc o : Exec σ Datum)) r) := by
  rw [Watched.map_apply]
  refine plain (Watched.own_seen _ r) (fun d rest same null => ?_) fun same => ?_
  · obtain ⟨d, made, rfl⟩ := Watched.map_ok same
    rcases Watched.result_leaf shown noObject made with ⟨name, rfl⟩ | ⟨scalar, rfl⟩
    · cases null
    · cases rest with
      | cons step rest => exact .inside known scalar
      | nil =>
        cases null with
        | here =>
          cases inList with
          | true => exact .stored known scalar
          | false => exact absurd rfl (solid rfl)
  · obtain ⟨d, _, absurd⟩ := Watched.map_ok same
    cases absurd

-- What a resolver has given, by the declared type.
theorem outcome {object : Watched.ObjectData σ}
    (objects : ∀ name t o q r inList nonNull, c.type? name = some t →
      Presents c inList (.named name nonNull) nodes q ((some <$> object t o q) r))
    (loc : Location) (shows : c.Shows type.name) (o : Outcome)
    (solid : inList = false → o ≠ .leaf .null) (r : Run σ) :
    Presents c inList type nodes q (Watched.outcome c object loc type q (some o) r) := by
  induction type generalizing inList q o r with
  | named name nonNull =>
    obtain ⟨t, known, shown⟩ := shows
    have known : c.type? name = some t := known
    unfold Watched.outcome
    simp only [known]
    unfold Watched.value
    split
    · exact objects name t o q r inList nonNull known
    · rename_i noObject
      exact leaf known shown noObject loc solid r
  | list item nonNull ih =>
    unfold Watched.outcome
    cases listed : Watched.itemsOf? o with
    | none => exact failed (Watched.own_seen _ r) rfl
    | some items =>
      simp only
      rw [Watched.map_apply]
      refine Items.list (Items.elements items (fun i _ q r => ?_) 0 r)
      refine ih shows i (fun absurd => ?_) r
      cases absurd

end Presents

theorem Watched.close_answer {v : Visit} {w : Watch σ (Option Datum)} {d : Option Datum}
    (made : (close v w).result = .ok d) : ∃ v', (close v w).seen = [.position v' w.seen] ∧
      v'.place = v.place ∧ v'.answer = .ok d := by
  unfold close at made ⊢
  cases result : w.result with
  | ok d' =>
    rw [result] at made
    exact ⟨_, rfl, rfl, congrArg _ (Except.ok.inj made)⟩
  | error fault =>
    rw [result] at made
    simp only at made ⊢
    split at made
    · rename_i nullable
      rw [if_pos nullable]
      exact ⟨_, rfl, rfl, congrArg _ (Except.ok.inj made)⟩
    · cases made

-- What a field shows is the answer of its position.
theorem Execution.watchField_answer {x : Execution σ} {type : TypeDef} {parent : Outcome} {p : Path}
    {head : FieldHead} {object : Watched.ObjectData σ} {f : FieldDef} {r : Run σ} {d : Option Datum}
    (made : (x.watchField type parent p head object f r).result = .ok d) :
    ∃ u ∈ Invocation.visitsOf (x.watchField type parent p head object f r).seen,
      u.place.path = p ++ [.field head.key] ∧ u.answer = .ok d := by
  unfold watchField at made ⊢
  cases read : (Watched.own (x.arguments f head) r).result with
  | error fault =>
    rw [Watched.bind_of_error read] at made
    cases made
  | ok arguments =>
    rw [Watched.bind_of_ok read] at made ⊢
    have closed : ∃ v w, x.watchInvocation type parent (p ++ [.field head.key]) head.loc object f
        arguments (Watched.own (x.arguments f head) r).run = Watched.close v w ∧
        v.place.path = p ++ [.field head.key] := by
      unfold watchInvocation
      split <;> exact ⟨_, _, rfl, rfl⟩
    obtain ⟨v, w, same, path⟩ := closed
    simp only [same] at made ⊢
    obtain ⟨v', seen, place, answer⟩ := Watched.close_answer made
    refine ⟨v', ?_, place ▸ path, answer⟩
    rw [seen, Watched.own_seen, List.nil_append, Invocation.visitsOf_position]
    exact List.mem_cons_self

theorem Presents.invocation {x : Execution σ} (grounded : x.schema.Grounded) {type : TypeDef}
    {parent : Outcome} {here : Path} {loc : Location} {object : Watched.ObjectData σ}
    {f : FieldDef} {children : List Node}
    (known : x.schema.catalog.type? type.name = some type)
    (declared : type.field? f.name = some f)
    (objects : ∀ name t o q r inList nonNull, x.schema.catalog.type? name = some t →
      Presents x.schema.catalog inList (.named name nonNull) children q ((some <$> object t o q) r))
    (arguments : Arguments) (r : Run σ) :
    Presents x.schema.catalog false f.type children here
      (x.watchInvocation type parent here loc object f arguments r) := by
  have resolved := x.declaredField_declared type.name f.name here loc arguments parent r
  unfold Execution.watchInvocation
  split
  · rename_i o r' ran
    rw [ran] at resolved
    refine .close rfl rfl rfl ?_
    cases o with
    | none =>
      unfold Watched.outcome
      exact missing loc r'
    | some o =>
      obtain ⟨resolver, served⟩ := resolved.served
      exact outcome objects loc (grounded.shows_field known declared served) o
        (fun _ => resolved.nonNull grounded) r'
  · exact .close rfl rfl rfl (failed rfl rfl)

theorem Presents.field {x : Execution σ} (grounded : x.schema.Grounded) {type : TypeDef}
    (known : x.schema.catalog.type? type.name = some type) {head : FieldHead} {f : FieldDef}
    (declared : type.field? head.name = some f) {object : Watched.ObjectData σ}
    {children : List Node}
    (objects : ∀ name t o q r inList nonNull, x.schema.catalog.type? name = some t →
      Presents x.schema.catalog inList (.named name nonNull) children q ((some <$> object t o q) r))
    (parent : Outcome) (p : Path) (r : Run σ) :
    Presents x.schema.catalog false f.type children (p ++ [.field head.key])
      (x.watchField type parent p head object f r) := by
  have named : f.name = head.name := by simpa using List.find?_some declared
  unfold Execution.watchField
  cases read : (Watched.own (x.arguments f head) r).result with
  | error fault =>
    rw [Watched.bind_of_error read]
    exact .failed (Watched.own_seen _ r) rfl
  | ok arguments =>
    rw [Watched.bind_of_ok read, Watched.own_seen, List.nil_append]
    exact .invocation grounded known (named ▸ declared) objects arguments _

-- The description is entered only where it is shown at all.
theorem Catalog.entrance_described {c : Catalog} {t : TypeDef} {name : String} {f : FieldDef}
    (entered : (c.entrances t).find? (fun f => f.name = name) = some f) :
    c.introspection = true ∧ f ∈ Description.entrances := by
  have member := List.mem_of_find?_eq_some entered
  unfold entrances at member
  split at member
  · rename_i shown
    exact ⟨(Bool.and_eq_true_iff.mp shown).1, member⟩
  · cases member

theorem Execution.result_watchDescription {x : Execution σ} {p : Path} {head : FieldHead}
    {f : FieldDef} {children : List Node} {r : Run σ} {d : Option Datum}
    (made : (x.watchDescription p head f children r).result = .ok d) :
    (x.enterDescription p head f children r).1 = .ok d := by
  unfold watchDescription at made
  rcases ran : x.enterDescription p head f children r with ⟨e | d', r'⟩
  · rw [ran] at made
    cases made
  · rw [ran] at made
    rw [Except.ok.inj made]

mutual

theorem Collects.selection {x : Execution σ} (grounded : x.schema.Grounded)
    (closed : x.schema.catalog.Plain → x.schema.catalog.Closed) {type : TypeDef}
    (known : x.schema.catalog.type? type.name = some type)
    (parent : Outcome) (p : Path) : ∀ (n : Node) (r : Run σ),
    Collects x.schema.catalog type (Node.shownBy type.name n) p (x.watchSelection type parent p n r)
  | .group condition _ children, r => by
    rw [Execution.watchSelection, Node.shownBy]
    split
    · exact Collects.selections grounded closed known parent p children r
    · exact .empty [] rfl rfl
  | .field head children, r => by
    rw [Execution.watchSelection, Node.shownBy]
    split
    · -- The name of the type is a text.
      refine .plain rfl (fun results same => ?_) (fun results key d same member => ?_)
        fun results key d rest same member null => ?_
      · obtain rfl := Except.ok.inj same
        exact .refl _
      · obtain rfl := Except.ok.inj same
        obtain ⟨rfl, rfl⟩ := Prod.mk.inj (List.mem_singleton.mp member)
        exact .typename (List.mem_singleton_self _) rfl ‹_› rfl
      · obtain rfl := Except.ok.inj same
        obtain ⟨rfl, rfl⟩ := Prod.mk.inj (List.mem_singleton.mp member)
        cases null
    · cases entered : x.entrance? type head.name with
      | some f =>
        simp only
        rw [← Watched.map_eq_bind, Watched.map_apply]
        refine .entrance entered ?_ fun d made plain => ?_
        · obtain ⟨_, stopped, left, seen⟩ := x.watchDescription_record p head f children r
          rw [seen]
          rfl
        · obtain ⟨described, entrance⟩ := Catalog.entrance_described entered
          refine Ensures.enterDescription (closed plain) described entrance p head children r d ?_
          exact Execution.result_watchDescription made
      | none =>
        cases declared : type.field? head.name with
        | none => exact .empty _ rfl rfl
        | some f =>
          simp only
          rw [← Watched.map_eq_bind, Watched.map_apply]
          refine .field declared (fun d made => Execution.watchField_answer made) ?_
          refine .field grounded known declared ?_ parent p r
          intro name t o q r inList nonNull found
          rw [Watched.map_apply, Watched.map_apply]
          have inside := Collects.selections grounded closed (Catalog.type?_name found) o q children r
          rw [Catalog.name_of_type? found] at inside
          have shown : Presents x.schema.catalog inList (.named name nonNull) children q _ :=
            Collects.object found inside
          cases result : (x.watchSelections t o q children r).result with
          | error fault => rw [result] at shown; exact shown
          | ok results => rw [result] at shown; exact shown

theorem Collects.selections {x : Execution σ} (grounded : x.schema.Grounded)
    (closed : x.schema.catalog.Plain → x.schema.catalog.Closed) {type : TypeDef}
    (known : x.schema.catalog.type? type.name = some type)
    (parent : Outcome) (p : Path) : ∀ (nodes : List Node) (r : Run σ),
    Collects x.schema.catalog type (Node.shown type.name nodes) p
      (x.watchSelections type parent p nodes r)
  | [], r => by
    rw [Execution.watchSelections, Node.shown]
    exact .empty [] rfl rfl
  | n :: rest, r => by
    rw [Execution.watchSelections, Node.shown]
    have first := Collects.selection grounded closed known parent p n r
    cases result : (x.watchSelection type parent p n r).result with
    | error fault =>
      rw [Watched.bind_of_error result]
      exact .stop fault first _
    | ok results =>
      rw [Watched.bind_of_ok result, ← Watched.map_eq_bind, Watched.map_apply]
      exact .append first result (Collects.selections grounded closed known parent p rest _)

end

theorem Watch.data_cases (w : Watch σ (List (String × Datum))) :
    (∃ results, w.result = .ok results ∧ w.response.data = Datum.ofResults results) ∨
      w.response.data = .null := by
  unfold Watch.response
  cases w.result with
  | ok results => exact .inl ⟨results, rfl, rfl⟩
  | error fault => exact .inr rfl

namespace Execution

variable {x : Execution σ} (grounded : x.schema.Grounded)
  (closed : x.schema.catalog.Plain → x.schema.catalog.Closed) {root : TypeDef}
  (known : x.schema.catalog.type? root.name = some root) (nodes : List Node) (store : σ)

include grounded closed known

theorem watch_presents :
    Presents x.schema.catalog false (.named root.name false) nodes []
      ⟨(x.watch root nodes store).result.map (some ∘ Datum.ofResults), (x.watch root nodes store).run,
        (x.watch root nodes store).seen⟩ :=
  Collects.object known (Collects.selections grounded closed known .root [] nodes { store })

-- Where an error was raised, the data is null on the way, or something else is shown.
theorem watch_meets : ∀ v ∈ Invocation.visitsOf (x.watch root nodes store).seen,
    v.raised.isSome = true → (x.watch root nodes store).response.data.MeetsNull v.place.path ∨
      Outdone x.schema.catalog (x.watch root nodes store).seen (.named root.name false) nodes []
        v.place.path := by
  intro v member raised
  obtain ⟨results, made, same⟩ | gone := (x.watch root nodes store).data_cases
  · obtain ⟨rest, path, meets⟩ :=
      (watch_presents grounded closed known nodes store).raised v member raised
    rw [List.nil_append] at path
    rw [same, path]
    exact meets (some (Datum.ofResults results)) (by rw [made]; rfl)
  · rw [gone]
    exact .inl (Datum.meetsNull_null _)

-- Where the data is null, it may be.
theorem watch_null {path : Path}
    (null : Datum.NullAt path (x.watch root nodes store).response.data) :
    Tolerates x.schema.catalog false (.named root.name false) nodes path := by
  obtain ⟨results, made, same⟩ | gone := (x.watch root nodes store).data_cases
  · rw [same] at null
    exact (watch_presents grounded closed known nodes store).null (some (Datum.ofResults results)) path
      (by rw [made]; rfl) null
  · rw [gone] at null
    cases null with
    | here => exact .nullable rfl

end Execution

end RowGraph
