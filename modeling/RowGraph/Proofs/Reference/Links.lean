import RowGraph.Proofs.Execution.Resolve
import RowGraph.Proofs.Placement.Waiting
import RowGraph.Proofs.Reference.Direct
import RowGraph.Proofs.Reference.Mirror
/-!
Lists by marks and lists by what became of their elements. A resolver of a list marks exactly those
elements that have no row, and an element takes the mark that was set for it. Main statements: every
resolver conveys by marks what it hands on directly, and elements that find these marks are completed
as they are without them.
-/

namespace RowGraph

open Resolve

variable {σ ε α β : Type}

-- The mark that stands for what became of an element.
def Resolve.Link.mark (loc : Location) : Link → Option (Option ResponseError)
  | .row _ => none
  | .empty => some none
  | .broken e => some (some (e.raisedAt loc))

theorem index_ne {here : Path} {i j : Nat} (other : i ≠ j) :
    here ++ [Segment.index i] ≠ here ++ [.index j] :=
  fun same => other (Segment.index.inj (List.cons.inj (List.append_cancel_left same)).1)

-- Some elements of a list have been marked.
structure Marked (here : Path) (loc : Location) (index : Nat) (links : List Link) (r s : Run σ) :
    Prop where
  own : ∀ k link, links[k]? = some link → markAt s.marks (here ++ [.index (index + k)]) =
    (link.mark loc).or (markAt r.marks (here ++ [.index (index + k)]))
  other : ∀ q, (∀ k < links.length, q ≠ here ++ [.index (index + k)]) →
    markAt s.marks q = markAt r.marks q

namespace Marked

variable {here : Path} {loc : Location} {index : Nat} {links : List Link} {r s t : Run σ}

-- One more link in front, which has marked its own element at most.
theorem cons {link : Link}
    (first : ∀ q, markAt t.marks q =
      if q = here ++ [.index index] then (link.mark loc).or (markAt r.marks q) else markAt r.marks q)
    (rest : Marked here loc (index + 1) links t s) : Marked here loc index (link :: links) r s := by
  have shift (k : Nat) : index + 1 + k = index + (k + 1) := by omega
  refine ⟨fun k found there => ?_, fun q outside => ?_⟩
  · cases k with
    | zero =>
      obtain rfl : link = found := Option.some.inj there
      have same := rest.other (here ++ [.index index]) fun k _ => index_ne (by omega)
      rw [Nat.add_zero, same, first, if_pos rfl]
    | succ k =>
      have later := rest.own k found there
      rw [shift] at later
      rw [later, first, if_neg (index_ne (by omega))]
  · have later := rest.other q fun k before => by
      rw [shift]
      exact outside (k + 1) (by simpa using before)
    have away : q ≠ here ++ [.index index] := outside 0 (by simp)
    rw [later, first, if_neg away]

-- Links that are rows have no marks to set.
theorem ofRows (rows : ∀ link ∈ links, ∃ o, link = .row o) (r : Run σ) :
    Marked here loc index links r r := by
  refine ⟨fun k link found => ?_, fun _ _ => rfl⟩
  obtain ⟨o, rfl⟩ := rows link (List.mem_of_getElem? found)
  rfl

theorem after {t : Run σ} (keeps : Keeps r t) (marked : Marked here loc index links t s) :
    Marked here loc index links r s := by
  refine ⟨fun k link found => ?_, fun q outside => (marked.other q outside).trans (keeps q)⟩
  rw [marked.own k link found, keeps]

-- Where nothing else waits, an element finds the mark of its link, and nothing inside of it.
theorem waits (marked : Marked here loc 0 links r s)
    (free : ∀ q, Below here q → markAt r.marks q = none) (k : Nat) (link : Link)
    (found : links[k]? = some link) :
    markAt s.marks (here ++ [.index (0 + k)]) = link.mark loc := by
  rw [marked.own k link found, free _ (.snoc here _), Option.or_none]

theorem inside (marked : Marked here loc 0 links r s)
    (free : ∀ q, Below here q → markAt r.marks q = none) (i : Nat) (q : Path)
    (below : Below (here ++ [.index i]) q) : markAt s.marks q = none := by
  refine (marked.other q fun k _ same => ?_).trans (free q ((Below.snoc here _).trans below))
  obtain ⟨step, rest, rfl⟩ := below
  have length := congrArg List.length same
  simp at length

end Marked

namespace Resolve

theorem whole_lenient (links : List Link) : whole false links = .ok links := by
  induction links with
  | nil => rfl
  | cons link rest ih => cases link <;> simp [whole, ih, Except.map]

-- What is whole has no broken links.
theorem whole_required {links kept : List Link} (accepted : whole true links = .ok kept) :
    kept = links ∧ ∀ e, Link.broken e ∉ links := by
  induction links generalizing kept with
  | nil => exact ⟨(Except.ok.inj accepted).symm, fun _ absurd => nomatch absurd⟩
  | cons link rest ih =>
    have later {link : Link} (made : (whole true rest).map (link :: ·) = .ok kept) :
        kept = link :: rest ∧ ∀ e, Link.broken e ∉ rest := by
      cases found : whole true rest with
      | error e => rw [found] at made; cases made
      | ok ls =>
        rw [found] at made
        obtain ⟨rfl, unbroken⟩ := ih found
        exact ⟨(Except.ok.inj made).symm, unbroken⟩
    cases link with
    | broken e => cases accepted
    | row o =>
      obtain ⟨same, unbroken⟩ := later accepted
      exact ⟨same, fun e member => by simp_all⟩
    | empty =>
      obtain ⟨same, unbroken⟩ := later accepted
      exact ⟨same, fun e member => by simp_all⟩

-- A list whose items may be null is made with a mark for each element that has no row.
theorem linkElements_marked (here : Path) (loc : Location) (links : List Link) (index : Nat)
    (r : Run σ) : ∃ marks, linkElements here loc false index links r =
      (.ok (links.map Link.outcome), { r with marks }) ∧
      Marked here loc index links r { r with marks } := by
  induction links generalizing index r with
  | nil => exact ⟨r.marks, rfl, .ofRows (by simp) r⟩
  | cons link rest ih =>
    cases link with
    | row o =>
      obtain ⟨marks, ran, marked⟩ := ih (index + 1) r
      refine ⟨marks, ?_, marked.cons fun q => ?_⟩
      · rw [linkElements, bind_apply, ran]
        rfl
      · split <;> rfl
    | empty =>
      obtain ⟨marks, ran, marked⟩ := ih (index + 1) (Exec.setMark (here ++ [.index index]) none r)
      refine ⟨marks, ?_, marked.cons fun q => Exec.markAt_setMark _ _ _ q⟩
      rw [linkElements, bind_apply, nullElement_apply]
      simp only [Option.map_none]
      rw [bind_apply, ran]
      rfl
    | broken e =>
      obtain ⟨marks, ran, marked⟩ :=
        ih (index + 1) (Exec.setMark (here ++ [.index index]) (some (e.raisedAt loc)) r)
      refine ⟨marks, ?_, marked.cons fun q => Exec.markAt_setMark _ _ _ q⟩
      rw [linkElements]
      simp only [Bool.false_eq_true, if_false]
      rw [bind_apply, nullElement_apply]
      simp only [Option.map_some]
      rw [bind_apply, ran]
      rfl

-- A list whose items may not be null is made of rows, or given up.
theorem linkElements_whole (here : Path) (loc : Location) (links : List Link) (index : Nat)
    (full : ∀ link ∈ links, link ≠ .empty) (r : Run σ) :
    linkElements here loc true index links r =
      ((whole true links).map (List.map Link.outcome), r) := by
  induction links generalizing index with
  | nil => rfl
  | cons link rest ih =>
    have later := ih (index + 1) fun l member => full l (List.mem_cons_of_mem _ member)
    cases link with
    | row o =>
      rw [linkElements, bind_apply, later, whole]
      · cases whole true rest <;> rfl
      · intro _ absurd
        cases absurd
    | empty => exact absurd rfl (full _ List.mem_cons_self)
    | broken e => rfl

end Resolve

namespace Mirrors

variable {needs : Path → Prop}

theorem fetch (b : Backend σ) (key : Key) : Mirrors False needs (Resolve.fetch b key) (Resolve.fetch b key) := by
  intro r r' level
  unfold Resolve.fetch
  rw [level.store]
  rcases b.get key r.store with ⟨_ | _, s⟩
  · exact ⟨⟨rfl, rfl, level.bare, {}, .still r s _, .still r' s _, .inr rfl⟩, fun _ => rfl⟩
  · exact ⟨⟨rfl, rfl, level.bare, {}, .still r s _, .still r' s _, .inr rfl⟩, fun _ => rfl⟩

theorem rootRow (b : Backend σ) (argument table : String) (entry : Bool) (d : Datum) :
    Mirrors False needs (Resolve.rootRow b argument table entry d)
      (Resolve.rootRow b argument table entry d) :=
  (lift _).bind fun _ => (fetch b _).bind fun _ => pure _

theorem rootRows (b : Backend σ) (argument table : String) (entry : Bool) (ids : List Datum) :
    Mirrors False needs (Resolve.rootRows b argument table entry ids)
      (Resolve.rootRows b argument table entry ids) := by
  induction ids with
  | nil => exact pure _
  | cons d rest ih =>
    have later (row : Option Outcome) := ih.bind fun rows => pure (row :: rows)
    unfold Resolve.rootRows
    dsimp only
    split
    · exact (pure none).bind later
    · exact (rootRow b argument table entry d).bind later

theorem follow (b : Backend σ) (column table : String) (entry required : Bool) (v : Option Value) :
    Mirrors False needs (Resolve.follow b column table entry required v)
      (Resolve.follow b column table entry required v) := by
  unfold Resolve.follow
  split
  · exact pure _
  · split
    · exact pure _
    · refine (fetch b _).bind fun e => ?_
      cases e <;> exact pure _

theorem followAll (b : Backend σ) (column table : String) (entry required : Bool)
    (vs : List Value) : Mirrors False needs (Resolve.followAll b column table entry required vs)
      (Resolve.followAll b column table entry required vs) := by
  induction vs with
  | nil => exact pure _
  | cons v rest ih =>
    exact (follow b column table entry required _).bind fun link => ih.bind fun links => pure _

theorem send (b : Backend σ) (op : Operation) :
    Mirrors False needs (Commit.send b op) (Commit.send b op) := by
  intro r r' level
  unfold Commit.send
  rw [level.store]
  rcases b.commit op r.store with ⟨_ | _, s⟩
  · exact ⟨⟨rfl, rfl, level.bare, {}, .still r s _, .still r' s _, .inr rfl⟩, fun _ => rfl⟩
  · exact ⟨⟨rfl, rfl, level.bare, {}, .still r s _, .still r' s _, .inr rfl⟩, fun _ => rfl⟩

theorem mutation (b : Backend σ) (plan : MutationPlan) (arguments : Arguments) :
    Mirrors False needs (Commit.mutation b plan arguments) (Commit.mutation b plan arguments) := by
  have committed (op : Operation) : Mirrors False needs
      (if op.isEmpty then Pure.pure none
        else Commit.send b op >>= fun stamp => Pure.pure (stamp.map (Commit.result plan)))
      (if op.isEmpty then Pure.pure none
        else Commit.send b op >>= fun stamp => Pure.pure (stamp.map (Commit.result plan))) := by
    split
    · exact pure none
    · exact (send b op).bind fun stamp => pure _
  unfold Commit.mutation
  dsimp only
  split
  · exact (pure _).bind fun input => (lift _).bind committed
  · exact (throw _).bind fun input => (lift _).bind committed

theorem runHooks (type field : String) (loc : Location) (arguments : Arguments) (hooks : List Hook) :
    Mirrors (σ := σ) False needs (Execution.runHooks type field loc arguments hooks)
      (Execution.runHooks type field loc arguments hooks) := by
  induction hooks with
  | nil => exact pure ()
  | cons h rest ih =>
    unfold Execution.runHooks
    refine bind (note (fun r : Run σ => { r with calls := r.calls ++ [⟨type, field, h.label⟩] })
      { calls := [⟨type, field, h.label⟩] } (.inr rfl)
      (fun r => ⟨⟨(List.append_nil _).symm, (List.append_nil _).symm, rfl⟩, rfl, rfl⟩) ()) fun _ => ?_
    split
    · exact throw _
    · exact ih

end Mirrors

-- A resolver that may mark elements of its list.
def Resolver.Marks (resolver : Resolver) : Prop :=
  Lenient resolver ∨ ∃ argument shape, resolver = .root argument shape

-- What a resolver hands on by marks, next to what it hands on directly: the same outcome, or a list.
inductive Passes (resolver : Resolver) (here : Path) (loc : Location) (r r' : Run σ) :
    Except ε (Option Outcome) × Run σ → Except ε Delivery × Run σ → Prop where
  | plain (result : Except ε (Option Outcome)) {s s' : Run σ} :
      Mirrored False r r' (result, s) (result, s') → Keeps r s →
      Passes resolver here loc r r' (result, s) (result.map .outcome, s')
  | list {links : List Link} {shape : FieldShape} {table : String} {required : Bool} {s s' : Run σ} :
      resolver.shape? = some shape → shape.kind = .referenceList table required →
      (∀ link ∈ links, (∃ o, link = .row o) ∨ resolver.Marks) →
      Mirrored False (ε := ε) (α := Unit) r r' (.ok (), s) (.ok (), s') → Marked here loc 0 links r s →
      Passes resolver here loc r r' (.ok (some (.list (links.map Link.outcome))), s)
        (.ok (.elements links), s')

def Conveys (resolver : Resolver) (here : Path) (loc : Location)
    (x : ExceptT ε (StateM (Run σ)) (Option Outcome)) (y : ExceptT ε (StateM (Run σ)) Delivery) :
    Prop :=
  ∀ r r', Level (fun _ => False) r r' → Passes resolver here loc r r' (x r) (y r')

theorem Passes.after {resolver : Resolver} {here : Path} {loc : Location} {r r' : Run σ}
    {w w' : Except ε α × Run σ} {v : Except ε (Option Outcome) × Run σ}
    {v' : Except ε Delivery × Run σ} (first : Mirrored False r r' w w') (keeps : Keeps r w.2)
    (passes : Passes resolver here loc w.2 w'.2 v v') : Passes resolver here loc r r' v v' := by
  cases passes with
  | plain result mirrored keeps' => exact .plain result (first.trans mirrored) fun q => (keeps' q).trans (keeps q)
  | list shaped kind rows mirrored marked =>
    exact .list shaped kind rows (first.trans mirrored) (marked.after keeps)

namespace Conveys

variable {resolver : Resolver} {here : Path} {loc : Location}

theorem ofMirrors {x : ExceptT ε (StateM (Run σ)) (Option Outcome)}
    (mirrors : Mirrors False (fun _ => False) x x) :
    Conveys resolver here loc x (.outcome <$> x) := by
  intro r r' level
  obtain ⟨mirrored, keeps⟩ := mirrors r r' level
  have made : (Delivery.outcome <$> x : ExceptT ε (StateM (Run σ)) Delivery) r' =
      ((x r').1.map .outcome, (x r').2) := by
    rw [map_eq_pure_bind, bind_apply]
    rcases x r' with ⟨_ | _, _⟩ <;> rfl
  rw [made, mirrored.result]
  refine .plain _ ⟨rfl, mirrored.store, mirrored.bare, mirrored.notes⟩ keeps

theorem fail (e : ε) : Conveys (σ := σ) resolver here loc
    (throw e : ExceptT ε (StateM (Run σ)) (Option Outcome)) (throw e) :=
  fun _ _ level => .plain (.error e) (.idle level _) fun _ => rfl

theorem give (o : Option Outcome) :
    Conveys (σ := σ) (ε := ε) resolver here loc (pure o) (pure (.outcome o)) :=
  fun _ _ level => .plain (.ok o) (.idle level _) fun _ => rfl

theorem bind {x : ExceptT ε (StateM (Run σ)) α}
    {f : α → ExceptT ε (StateM (Run σ)) (Option Outcome)}
    {g : α → ExceptT ε (StateM (Run σ)) Delivery} (first : Mirrors False (fun _ => False) x x)
    (rest : ∀ a, (∃ r s, x r = (.ok a, s)) → Conveys resolver here loc (f a) (g a)) :
    Conveys resolver here loc (x >>= f) (x >>= g) := by
  intro r r' level
  obtain ⟨mirrored, keeps⟩ := first r r' level
  have later := level.keep mirrored keeps
  rw [bind_apply, bind_apply]
  rcases ran : x r with ⟨result, s⟩
  rcases ran' : x r' with ⟨result', s'⟩
  rw [ran, ran'] at mirrored later
  rw [ran] at keeps
  obtain rfl : result' = result := mirrored.result
  cases result' with
  | error e =>
    exact .plain (.error e) ⟨rfl, mirrored.store, mirrored.bare, mirrored.notes⟩ keeps
  | ok a => exact (rest a ⟨r, s, ran⟩ s s' later).after mirrored keeps

theorem adapt {ε' : Type} (f : ε → ε') {x : ExceptT ε (StateM (Run σ)) (Option Outcome)}
    {y : ExceptT ε (StateM (Run σ)) Delivery} (conveys : Conveys resolver here loc x y) :
    Conveys resolver here loc (ExceptT.adapt f x) (ExceptT.adapt f y) := by
  intro r r' level
  have passes := conveys r r' level
  rw [adapt_apply, adapt_apply]
  generalize x r = w at passes ⊢
  generalize y r' = w' at passes ⊢
  cases passes with
  | plain result mirrored keeps =>
    have both : (result.map Delivery.outcome).mapError f = (result.mapError f).map .outcome := by
      cases result <;> rfl
    simp only [both]
    exact .plain _ (mirrored.map_result (Except.mapError f)) keeps
  | list shaped kind rows mirrored marked =>
    exact .list shaped kind rows (mirrored.map_result (Except.mapError f)) marked

-- The parent has to be a row on both sides.
theorem parent (o : Outcome) {f : Row → Resolving σ (Option Outcome)} {g : Row → Resolving σ Delivery}
    (rest : ∀ row, Conveys resolver here loc (f row) (g row)) :
    Conveys resolver here loc ((liftM (parentRow o) : Resolving σ Row) >>= f)
      ((liftM (parentRow o) : Resolving σ Row) >>= g) :=
  bind (.lift _) fun row _ => rest row

end Conveys

namespace Direct

variable {x : Execution σ} {here : Path} {loc : Location}

theorem root_conveys (b : Backend σ) (argument : String) (shape : FieldShape)
    (arguments : Arguments) : Conveys (.root argument shape) here loc
      (Resolve.root b argument shape here loc arguments) (root b argument shape arguments) := by
  unfold Resolve.root root
  cases kind : shape.kind with
  | scalar => exact .fail _
  | reference table =>
    cases argument? arguments argument with
    | none => exact .give none
    | some d => exact .ofMirrors (.rootRow _ _ _ _ _)
  | referenceList table required =>
    cases argument? arguments argument with
    | none => exact .give none
    | some d =>
      cases d with
      | list ids =>
        refine .bind (.rootRows _ _ _ _ _) fun rows _ r r' level => ?_
        rw [bind_apply, rootElements_eq here loc rows 0]
        obtain ⟨marks, ran, marked⟩ := linkElements_marked here loc (rows.map Link.ofRow) 0 r
        rw [ran]
        refine .list rfl kind (fun _ _ => .inr (.inr ⟨_, _, rfl⟩)) ?_ marked
        exact ⟨rfl, level.store, level.bare, {}, .still r _ marks, .refl r', .inr rfl⟩
      | _ => exact .fail _

theorem reference_conveys (b : Backend σ) (column : String) (shape : FieldShape) (o : Outcome) :
    Conveys (.reference column shape) here loc (Resolve.reference b column shape here loc o)
      (reference b column shape o) := by
  refine .parent o fun row => ?_
  cases kind : shape.kind with
  | scalar => exact .fail _
  | reference table =>
    refine .bind (.follow _ _ _ _ _ _) fun link _ => ?_
    cases link with
    | row o => exact .give _
    | empty => exact .give none
    | broken e => exact .fail e
  | referenceList table required =>
    cases stored? row column with
    | none =>
      cases shape.nonNull with
      | true => exact .fail _
      | false => exact .give none
    | some v =>
      cases v with
      | array items =>
        refine .bind (.followAll _ _ _ _ _ _) fun links ran r r' level => ?_
        rw [bind_apply, bind_apply]
        cases required with
        | false =>
          obtain ⟨marks, ran, marked⟩ := linkElements_marked here loc links 0 r
          rw [ran, whole_lenient]
          refine .list rfl kind (fun _ _ => .inr (.inl ⟨_, _, _, rfl, kind⟩)) ?_ marked
          exact ⟨rfl, level.store, level.bare, {}, .still r _ marks, .refl r', .inr rfl⟩
        | true =>
          obtain ⟨first, s, ran⟩ := ran
          have full (link : Link) (member : link ∈ links) : link ≠ .empty :=
            (followAll_whole column table shape.entry true items first).2 links (by rw [ran]) link
              member rfl
          rw [linkElements_whole here loc links 0 full]
          cases found : whole true links with
          | error e => exact .plain (.error e) (.idle level _) fun _ => rfl
          | ok kept =>
            obtain ⟨rfl, unbroken⟩ := whole_required found
            have rows : ∀ link ∈ kept, ∃ o, link = .row o := by
              intro link member
              cases link with
              | row o => exact ⟨o, rfl⟩
              | empty => exact absurd rfl (full _ member)
              | broken e => exact absurd member (unbroken e)
            exact .list rfl kind (fun link member => .inl (rows link member)) (.idle level _)
              (.ofRows rows r)
      | _ => exact .fail _

theorem resolver_conveys (here : Path) (loc : Location) (x : Execution σ) (arguments : Arguments) (parent : Outcome)
    (r : Resolver) : Conveys r here loc (x.resolver here loc arguments parent r)
      (resolver x arguments parent r) := by
  cases r with
  | root argument shape => exact root_conveys x.backend argument shape arguments
  | column name => exact .ofMirrors (.lift _)
  | reference column shape => exact reference_conveys x.backend column shape parent
  | value => exact .ofMirrors (.lift _)
  | mutation plan => exact .ofMirrors (.mutation x.backend plan arguments)

-- What a field that has a resolver hands on, its hooks first.
theorem declaredField_conveys (here : Path) (loc : Location) {x x' : Execution σ} (schema : x'.schema = x.schema)
    (backend : x'.backend = x.backend) {type field : String} {r : Resolver}
    (resolves : FieldMap.get? x.schema.resolvers type field = some r) (arguments : Arguments)
    (parent : Outcome) : Conveys r here loc (x.declaredField type field here loc arguments parent)
      (declaredField x' type field loc arguments parent) := by
  unfold Execution.declaredField declaredField
  rw [schema, resolves]
  refine .bind (.runHooks _ _ _ _ _) fun _ _ => .adapt _ ?_
  have conveys := resolver_conveys here loc x arguments parent r
  cases r <;> simpa only [resolver, backend] using conveys

end Direct

-- Taking a mark that waits leaves everything else as it is.
theorem takeMark_marked {path : Path} {r : Run σ} {mark : Option ResponseError}
    (waits : markAt r.marks path = some mark) : ∃ marks,
      Exec.takeMark path r = (some mark, { r with marks }) ∧
        ∀ q, markAt marks q = if q = path then none else markAt r.marks q := by
  obtain ⟨⟨q, e⟩, found, rfl⟩ := Option.map_eq_some_iff.mp waits
  refine ⟨_, ?_, markAt_filter r.marks path⟩
  unfold Exec.takeMark
  rw [found]

namespace Direct

-- An element that finds the mark of its link is completed as that link is, and the mark is gone.
theorem element_mirrors {p : Path} {loc : Location} (nullable : Bool) {link : Link}
    {body body' : Outcome → Exec σ (Option Datum)}
    (bodies : ∀ o, Mirrors False (Below p) (body o) (body' o)) {r r' : Run σ}
    (level : Level (Below p) r r') (waits : markAt r.marks p = link.mark loc) :
    Mirrored False r r' (Exec.element p nullable (body link.outcome) r)
      (element loc p nullable body' link r') ∧
    ∀ q, markAt (Exec.element p nullable (body link.outcome) r).2.marks q =
      if q = p then none else markAt r.marks q := by
  -- What stands for a link without a row happens after its mark has been taken.
  have taken {mark : Option ResponseError} (found : link.mark loc = some mark)
      {y : Exec σ (Option Datum)} (same : Mirrors False (fun _ => False) y y)
      (then_ : ∀ s, Exec.takeMark p r = (some mark, s) →
        Exec.element p nullable (body link.outcome) r = y s) :
      Mirrored False r r' (Exec.element p nullable (body link.outcome) r) (y r') ∧
      ∀ q, markAt (Exec.element p nullable (body link.outcome) r).2.marks q =
        if q = p then none else markAt r.marks q := by
    obtain ⟨marks, took, gone⟩ := takeMark_marked (waits.trans found)
    rw [then_ _ took]
    have later : Level (fun _ => False) { r with marks } r' :=
      ⟨level.store, level.bare, fun _ absurd => absurd.elim⟩
    obtain ⟨mirrored, keeps⟩ := same _ _ later
    obtain ⟨n, noted, noted'⟩ := mirrored.notes
    refine ⟨⟨mirrored.result, mirrored.store, mirrored.bare, n, ?_, noted'⟩, fun q => ?_⟩
    · exact ⟨noted.absorbed, noted.caught, noted.calls⟩
    · rw [keeps, gone]
  cases link with
  | row o =>
    obtain ⟨mirrored, keeps⟩ := (bodies o).guard p nullable r r' level
    have unmarked : Exec.element p nullable (body o) r = Exec.guard p nullable (body o) r :=
      Exec.element_unmarked waits
    change Mirrored False r r' (Exec.element p nullable (body o) r) _ ∧
      ∀ q, markAt (Exec.element p nullable (body o) r).2.marks q = _
    rw [unmarked]
    refine ⟨mirrored, fun q => ?_⟩
    rw [keeps]
    split
    · rename_i here
      rw [here]
      exact waits
    · rfl
  | empty =>
    refine taken rfl ?_ fun s took => ?_
    · cases nullable with
      | true => exact .pure none
      | false => exact .absorb p false _
    · unfold Exec.element
      rw [bind_apply, lift_apply, took]
      cases nullable <;> rfl
  | broken e =>
    refine taken rfl (.absorb p nullable _) fun s took => ?_
    unfold Exec.element
    rw [bind_apply, lift_apply, took]
    rfl

-- So are all elements of a list, one after another; those that may be null take all marks.
theorem elements_mirrors {here : Path} {loc : Location} (nullable : Bool)
    {body body' : Path → Outcome → Exec σ (Option Datum)}
    (bodies : ∀ p o, Mirrors False (Below p) (body p o) (body' p o)) (links : List Link) (index : Nat) {r r' : Run σ}
    (store : r'.store = r.store) (bare : r'.marks = [])
    (inside : ∀ i q, Below (here ++ [.index i]) q → markAt r.marks q = none)
    (waits : ∀ k link, links[k]? = some link →
      markAt r.marks (here ++ [.index (index + k)]) = link.mark loc) :
    let w := Complete.elements nullable here body index (links.map Link.outcome) r
    Mirrored False r r' w (elements loc nullable here body' index links r') ∧
      (∀ q, (∀ k < links.length, q ≠ here ++ [.index (index + k)]) →
        markAt w.2.marks q = markAt r.marks q) ∧
      ∀ k < links.length, markAt w.2.marks (here ++ [.index (index + k)]) = none ∨
        nullable = false ∧ markAt w.2.marks (here ++ [.index (index + k)]) =
          markAt r.marks (here ++ [.index (index + k)]) := by
  induction links generalizing index r r' with
  | nil => exact ⟨⟨rfl, store, bare, {}, .refl r, .refl r', .inr rfl⟩, fun _ _ => rfl, fun _ => nofun⟩
  | cons link rest ih =>
    have shift (k : Nat) : index + (k + 1) = index + 1 + k := by omega
    have level : Level (Below (here ++ [.index index])) r r' := ⟨store, bare, inside index⟩
    obtain ⟨first, marks⟩ := element_mirrors nullable (bodies _) level
      (waits 0 link rfl)
    rw [List.map_cons, Complete.elements, elements, bind_apply, bind_apply]
    generalize ran : Exec.element (here ++ [.index index]) nullable
      (body (here ++ [.index index]) link.outcome) r = w at first marks
    generalize element loc (here ++ [.index index]) nullable (body' (here ++ [.index index])) link r' =
      w' at first
    obtain ⟨result, s⟩ := w
    obtain ⟨result', s'⟩ := w'
    obtain rfl : result' = result := first.result
    have apart (q : Path) (other : q ≠ here ++ [.index index]) :
        markAt s.marks q = markAt r.marks q := by
      rw [marks, if_neg other]
    have gone : markAt s.marks (here ++ [.index index]) = none := by
      rw [marks, if_pos rfl]
    cases result' with
    | error e =>
      -- Only an element that may not be null ends the list.
      have strict : nullable = false := by
        cases nullable with
        | false => rfl
        | true =>
          obtain ⟨d, _, made⟩ := Exec.element_nullable (here ++ [.index index])
            (body (here ++ [.index index]) link.outcome) r
          cases made.symm.trans ran
      refine ⟨⟨rfl, first.store, first.bare, first.notes⟩, fun q outside => ?_, fun k before => ?_⟩
      · exact apart q (outside 0 (by simp))
      · cases k with
        | zero => exact .inl gone
        | succ k => exact .inr ⟨strict, apart _ (index_ne (by omega))⟩
    | ok d =>
      obtain ⟨later, others, own⟩ := ih (index + 1) first.store first.bare
        (fun i q below => by
          rw [marks]
          split
          · rfl
          · exact inside i q below)
        (fun k found there => by
          rw [← shift, apart _ (index_ne (by omega))]
          exact waits (k + 1) found there)
      simp only [bind_apply]
      have finish := first.trans later
      generalize Complete.elements nullable here body (index + 1) (rest.map Link.outcome) s = v
        at finish others own ⊢
      generalize elements loc nullable here body' (index + 1) rest s' = v' at finish ⊢
      obtain ⟨made, t⟩ := v
      obtain ⟨made', t'⟩ := v'
      obtain rfl : made' = made := finish.result
      have outside (q : Path) (away : ∀ k < (link :: rest).length, q ≠ here ++ [.index (index + k)]) :
          markAt t.marks q = markAt r.marks q := by
        refine (others q fun k before => ?_).trans (apart q (away 0 (by simp)))
        exact shift k ▸ away (k + 1) (by simpa using before)
      have inner (k : Nat) (before : k < (link :: rest).length) :
          markAt t.marks (here ++ [.index (index + k)]) = none ∨ nullable = false ∧
            markAt t.marks (here ++ [.index (index + k)]) =
              markAt r.marks (here ++ [.index (index + k)]) := by
        cases k with
        | zero =>
          refine .inl ((others _ fun k _ => ?_).trans gone)
          exact index_ne (by omega)
        | succ k =>
          have kept := own k (by simpa using before)
          rw [← shift, apart _ (index_ne (by omega))] at kept
          exact kept
      cases made' with
      | error e => exact ⟨⟨rfl, finish.store, finish.bare, finish.notes⟩, outside, inner⟩
      | ok ds => exact ⟨⟨rfl, finish.store, finish.bare, finish.notes⟩, outside, inner⟩

end Direct

end RowGraph
