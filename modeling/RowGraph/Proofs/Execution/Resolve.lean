import RowGraph.Proofs.Execution.Marks
import RowGraph.Proofs.Execution.Reading
import RowGraph.Proofs.Mutation.Transaction
/-!
What the resolvers do to a request. Only marks of elements of the field's own list are set, errors
are handed to elements only where these may be null, and what is shown of a table are rows that were
read from it. Main statement: this is so for every resolver.
-/

namespace RowGraph

variable {σ α β : Type}

-- Marks are set for some elements of a list, with errors only where these are allowed.
structure Marking (path : Path) (errors : Prop) (lo hi : Nat) (r r' : Run σ) : Prop where
  store : r'.store = r.store
  absorbed : r'.absorbed = r.absorbed
  caught : r'.caught = r.caught
  distinct : Distinct r.marks → Distinct r'.marks
  marks : ∀ q, markAt r'.marks q = markAt r.marks q ∨
    ∃ j e, lo ≤ j ∧ j < hi ∧ q = path ++ [.index j] ∧ markAt r'.marks q = some e ∧
      ∀ e', e = some e' → errors ∧ e'.path = []

namespace Marking

variable {path : Path} {errors : Prop}

theorem imp {errors' : Prop} {lo hi : Nat} {r r' : Run σ} (imp : errors → errors')
    (marking : Marking path errors lo hi r r') : Marking path errors' lo hi r r' := by
  refine { marking with marks := fun q => (marking.marks q).imp_right ?_ }
  rintro ⟨j, e, above, below, place, there, allowed⟩
  exact ⟨j, e, above, below, place, there, fun e' same => (allowed e' same).imp_left imp⟩

theorem refl (lo hi : Nat) (r : Run σ) : Marking path errors lo hi r r :=
  ⟨rfl, rfl, rfl, fun distinct => distinct, fun _ => .inl rfl⟩

theorem later {lo hi : Nat} {r r' : Run σ} (marking : Marking path errors (lo + 1) hi r r') :
    Marking path errors lo hi r r' := by
  refine { marking with marks := fun q => (marking.marks q).imp_right ?_ }
  rintro ⟨j, e, above, below, rest⟩
  exact ⟨j, e, by omega, below, rest⟩

theorem first {lo hi : Nat} {r r' : Run σ} {e : Option ResponseError} (inside : lo < hi)
    (allowed : ∀ e', e = some e' → errors ∧ e'.path = [])
    (marking : Marking path errors (lo + 1) hi (Exec.setMark (path ++ [.index lo]) e r) r') :
    Marking path errors lo hi r r' := by
  refine ⟨marking.store, marking.absorbed, marking.caught,
    fun distinct => marking.distinct (Exec.distinct_setMark distinct _ e), fun q => ?_⟩
  rcases marking.marks q with same | ⟨j, e, above, below, rest⟩
  · rw [Exec.markAt_setMark] at same
    by_cases here : q = path ++ [.index lo]
    · rw [if_pos here] at same
      exact .inr ⟨lo, e, Nat.le_refl lo, inside, here, same, allowed⟩
    · rw [if_neg here] at same
      exact .inl same
  · exact .inr ⟨j, e, by omega, below, rest⟩

end Marking

-- The parent is a row already.
theorem Resolve.parentRow_bind (row : Row) (f : Row → Resolving σ α) :
    (liftM (parentRow (.row row)) : Resolving σ Row) >>= f = f row := rfl

theorem nullElement_apply (path : Path) (loc : Location) (index : Nat) (e : Option GraphError)
    (r : Run σ) : Resolve.nullElement path loc index e r =
      (.ok (), Exec.setMark (path ++ [.index index]) (e.map fun e => e.raisedAt loc) r) := rfl

namespace Resolve

theorem rootElements_marks (path : Path) (loc : Location) (rows : List (Option Outcome))
    (index : Nat) (r : Run σ) :
    ∃ os r', rootElements path loc index rows r = (.ok os, r') ∧
      (∀ o ∈ os, some o ∈ rows ∨ o = .leaf .null) ∧
      Marking path False index (index + rows.length) r r' := by
  induction rows generalizing index r with
  | nil => exact ⟨[], r, rfl, by simp, .refl _ _ r⟩
  | cons row rest ih =>
    cases row with
    | some o =>
      obtain ⟨os, r', ran, from_, marking⟩ := ih (index + 1) r
      refine ⟨o :: os, r', ?_, ?_, ?_⟩
      · rw [rootElements, bind_apply, ran]
        rfl
      · intro o' member
        rcases List.mem_cons.mp member with rfl | old
        · exact .inl List.mem_cons_self
        · exact (from_ o' old).imp_left (List.mem_cons_of_mem _)
      · rw [List.length_cons, show index + (rest.length + 1) = index + 1 + rest.length by omega]
        exact marking.later
    | none =>
      obtain ⟨os, r', ran, from_, marking⟩ :=
        ih (index + 1) (Exec.setMark (path ++ [.index index]) none r)
      refine ⟨.leaf .null :: os, r', ?_, ?_, ?_⟩
      · rw [rootElements, bind_apply, nullElement_apply]
        simp only [Option.map_none]
        rw [bind_apply, ran]
        rfl
      · intro o' member
        rcases List.mem_cons.mp member with rfl | old
        · exact .inr rfl
        · exact (from_ o' old).imp_left (List.mem_cons_of_mem _)
      · rw [List.length_cons, show index + (rest.length + 1) = index + 1 + rest.length by omega]
        exact .first (by omega) (fun _ same => by cases same) marking

-- What becomes of some links: a row for each, or a null in its place.
structure Placed (links : List Link) (required : Bool)
    (result : Except GraphError (List Outcome)) : Prop where
  fails : ∀ e, result = .error e → required = true
  items : ∀ os, result = .ok os →
    os.length = links.length ∧ ∀ o ∈ os, Link.row o ∈ links ∨ o = .leaf .null

theorem Placed.cons {links : List Link} {required : Bool} {result : Except GraphError (List Outcome)}
    (placed : Placed links required result) {link : Link} {o : Outcome}
    (here : link = .row o ∨ o = .leaf .null) :
    Placed (link :: links) required (result.map (o :: ·)) := by
  cases result with
  | error e => exact ⟨fun _ _ => placed.fails e rfl, fun _ same => (by cases same)⟩
  | ok os =>
    obtain ⟨length, each⟩ := placed.items os rfl
    refine ⟨fun _ same => (by cases same), fun os' same => ?_⟩
    obtain rfl := Except.ok.inj same
    refine ⟨by simp [length], fun o' member => ?_⟩
    rcases List.mem_cons.mp member with rfl | old
    · exact here.imp_left fun same => by rw [same]; exact List.mem_cons_self
    · exact (each o' old).imp_left (List.mem_cons_of_mem _)

-- Errors are handed over only if the items may be null, and then the list is never given up.
theorem linkElements_marks (path : Path) (loc : Location) (required : Bool) (links : List Link)
    (index : Nat) (r : Run σ) :
    ∃ result r', linkElements path loc required index links r = (result, r') ∧
      Placed links required result ∧
      Marking path (required = false) index (index + links.length) r r' := by
  induction links generalizing index r with
  | nil =>
    refine ⟨.ok [], r, rfl, ⟨fun _ same => (by cases same), fun os same => ?_⟩, .refl _ _ r⟩
    obtain rfl := Except.ok.inj same
    simp
  | cons link rest ih =>
    have length : index + (link :: rest).length = index + 1 + rest.length := by
      rw [List.length_cons]
      omega
    rw [length]
    cases link with
    | row o =>
      obtain ⟨result, r', ran, placed, marking⟩ := ih (index + 1) r
      refine ⟨_, r', ?_, placed.cons (.inl rfl), marking.later⟩
      rw [linkElements, bind_apply, ran]
      cases result <;> rfl
    | empty =>
      obtain ⟨result, r', ran, placed, marking⟩ :=
        ih (index + 1) (Exec.setMark (path ++ [.index index]) none r)
      refine ⟨_, r', ?_, placed.cons (.inr rfl), .first (by omega) (fun _ same => by cases same) marking⟩
      rw [linkElements, bind_apply, nullElement_apply]
      simp only [Option.map_none]
      rw [bind_apply, ran]
      cases result <;> rfl
    | broken e =>
      cases required with
      | true =>
        refine ⟨.error e, r, rfl, ⟨fun _ _ => rfl, fun _ same => (by cases same)⟩, .refl _ _ r⟩
      | false =>
        obtain ⟨result, r', ran, placed, marking⟩ :=
          ih (index + 1) (Exec.setMark (path ++ [.index index]) (some (e.raisedAt loc)) r)
        refine ⟨_, r', ?_, placed.cons (.inr rfl), .first (by omega) (fun e' same => ?_) marking⟩
        · rw [linkElements]
          simp only [Bool.false_eq_true, if_false]
          rw [bind_apply, nullElement_apply]
          simp only [Option.map_some]
          rw [bind_apply, ran]
          cases result <;> rfl
        · obtain rfl := Option.some.inj same
          exact ⟨rfl, rfl⟩

end Resolve

-- The elements of the list that a resolver makes may be null.
def Lenient (resolver : Resolver) : Prop :=
  ∃ column shape table, resolver = .reference column shape ∧
    shape.kind = .referenceList table false

-- A resolver has an error for the element at an index of its list.
def Hands (resolver : Resolver) (result : Except GraphError (Option Outcome)) (j : Nat) : Prop :=
  Lenient resolver ∧ ∃ os, result = .ok (some (.list os)) ∧ j < os.length

-- What is shown is a row of the table, or a list of such rows and nulls.
def Delivers (b : Backend σ) (table : String) (entry : Bool) (s s' : σ) (o : Outcome) : Prop :=
  Shows b table entry s s' o ∨
    ∃ os, o = .list os ∧ ∀ i ∈ os, Shows b table entry s s' i ∨ i = .leaf .null

-- What a resolver that sends some operations may do at a position.
structure Resolved (b : Backend σ) (here : Path) (resolver : Resolver) (ops : List Operation)
    (r : Run σ) (result : Except GraphError (Option Outcome)) (r' : Run σ) : Prop where
  store : Sends b r.store ops r'.store
  absorbed : r'.absorbed = r.absorbed
  caught : r'.caught = r.caught
  distinct : Distinct r.marks → Distinct r'.marks
  marks : ∀ q, markAt r'.marks q = markAt r.marks q ∨
    ∃ j e, q = here ++ [.index j] ∧ markAt r'.marks q = some e ∧
      ∀ e', e = some e' → e'.path = [] ∧ Hands resolver result j
  delivers : ∀ shape table o, resolver.shape? = some shape → shape.table? = some table →
    result = .ok (some o) → Delivers b table shape.entry r.store r'.store o

-- A resolver that only reads, from whatever state it starts.
def Resolves (b : Backend σ) (here : Path) (resolver : Resolver)
    (x : Resolving σ (Option Outcome)) : Prop :=
  ∀ r, Resolved b here resolver [] r (x r).1 (x r).2

theorem Gives.resolves {b : Backend σ} {here : Path} {resolver : Resolver}
    {x : Resolving σ (Option Outcome)} {P : σ → σ → Option Outcome → Prop} (gives : Gives b x P)
    (delivers : ∀ s s' o shape table, resolver.shape? = some shape → shape.table? = some table →
      P s s' (some o) → Delivers b table shape.entry s s' o) : Resolves b here resolver x := by
  intro r
  obtain ⟨steady, post⟩ := gives r
  refine ⟨steady.store, steady.absorbed, steady.caught, fun distinct => steady.marks ▸ distinct,
    fun _ => .inl (by rw [steady.marks]), ?_⟩
  intro shape table o shaped named same
  exact delivers _ _ o shape table shaped named (post _ same)

namespace Resolve

variable {b : Backend σ} {here : Path}

theorem failed (resolver : Resolver) (e : GraphError) :
    Resolves b here resolver (throw e) :=
  (Gives.throw (P := fun _ _ _ => False) e).resolves fun _ _ _ _ _ _ _ absurd => absurd.elim

theorem nothing (resolver : Resolver) : Resolves b here resolver (pure none) :=
  (Gives.pure (P := fun _ _ o => o = none) fun _ => rfl).resolves
    fun _ _ _ _ _ _ _ absurd => nomatch absurd

-- A list of rows: what was looked up first is put in its place.
theorem listed {resolver : Resolver} {x : Resolving σ α} {P : σ → σ → α → Prop}
    (gives : Gives b x P) {place : α → Resolving σ (List Outcome)}
    (places : ∀ a r, ∃ result r' n, place a r = (result, r') ∧
      Marking here (Lenient resolver) 0 n r r' ∧
      (Lenient resolver → ∃ os, result = .ok os ∧ os.length = n) ∧
      ∀ os, result = .ok os → ∀ s s' shape table, resolver.shape? = some shape →
        shape.table? = some table → P s s' a →
        ∀ i ∈ os, Shows b table shape.entry s s' i ∨ i = .leaf .null) :
    Resolves b here resolver (x >>= fun a => place a >>= fun os => pure (some (.list os))) := by
  intro r
  obtain ⟨steady, post⟩ := gives r
  rw [bind_apply]
  rcases ran : x r with ⟨e | a, r'⟩
  · rw [ran] at steady
    exact ⟨steady.store, steady.absorbed, steady.caught, fun distinct => steady.marks ▸ distinct,
      fun _ => .inl (congrArg (markAt · _) steady.marks), fun _ _ _ _ _ same => nomatch same⟩
  · rw [ran] at steady post
    obtain ⟨result, r'', n, placed, marking, whole, shown⟩ := places a r'
    have outcome : (place a >>= fun os => pure (some (Outcome.list os)) :
        Resolving σ (Option Outcome)) r' = (result.map fun os => some (.list os), r'') := by
      rw [bind_apply, placed]
      cases result <;> rfl
    simp only [outcome]
    refine ⟨marking.store ▸ steady.store, marking.absorbed.trans steady.absorbed,
      marking.caught.trans steady.caught,
      fun distinct => marking.distinct (steady.marks ▸ distinct), fun q => ?_, ?_⟩
    · rcases marking.marks q with same | ⟨j, e, _, below, here, there, allowed⟩
      · exact .inl (same.trans (congrArg (markAt · q) steady.marks))
      · refine .inr ⟨j, e, here, there, fun e' some => ?_⟩
        obtain ⟨lenient, unplaced⟩ := allowed e' some
        obtain ⟨os, rfl, length⟩ := whole lenient
        exact ⟨unplaced, lenient, os, rfl, length ▸ below⟩
    · intro shape table o shaped named same
      cases result with
      | error e => cases same
      | ok os =>
        obtain rfl := Option.some.inj (Except.ok.inj same)
        refine .inr ⟨os, rfl, fun i member => ?_⟩
        refine (shown os rfl _ _ shape table shaped named (post a rfl) i member).imp_left ?_
        intro shows
        exact shows.wider .refl (by rw [marking.store]; exact .refl)

theorem root_resolves (argument : String) (shape : FieldShape) (loc : Location)
    (arguments : Arguments) :
    Resolves b here (.root argument shape) (root b argument shape here loc arguments) := by
  unfold root
  split
  · exact failed _ _
  · exact nothing _
  · rename_i table d kind _
    refine (rootRow_gives table shape.entry argument d).resolves ?_
    intro s s' o shape' table' shaped named shows
    obtain rfl := Option.some.inj shaped
    obtain rfl : table = table' := by simpa [FieldShape.table?, kind] using named
    exact .inl (shows o rfl)
  · rename_i table required ids kind _
    refine listed (rootRows_gives table shape.entry argument ids) fun rows r => ?_
    obtain ⟨os, r', ran, from_, marking⟩ := rootElements_marks here loc rows 0 r
    have strict : ¬ Lenient (.root argument shape) := by
      rintro ⟨_, _, _, same, _⟩
      cases same
    refine ⟨.ok os, r', _, ran, marking.imp False.elim, fun lenient => absurd lenient strict, ?_⟩
    intro os' same s s' shape' table' shaped named shows i member
    obtain rfl := Except.ok.inj same
    obtain rfl := Option.some.inj shaped
    obtain rfl : table = table' := by simpa [FieldShape.table?, kind] using named
    exact (from_ i member).imp_left (shows i)
  · exact failed _ _

theorem parent_resolves {resolver : Resolver} (parent : Outcome)
    {f : Row → Resolving σ (Option Outcome)} (rest : ∀ row, Resolves b here resolver (f row)) :
    Resolves b here resolver ((liftM (parentRow parent) : Resolving σ Row) >>= f) := by
  cases parent with
  | row row => exact rest row
  | leaf d => exact failed resolver _
  | list items => exact failed resolver _

theorem reference_resolves (column : String) (shape : FieldShape) (loc : Location)
    (parent : Outcome) :
    Resolves b here (.reference column shape) (reference b column shape here loc parent) := by
  refine parent_resolves parent fun row => ?_
  split
  · exact failed _ _
  · rename_i table kind
    refine Gives.resolves (Gives.bind (Q := fun link _ _ found => ∀ o, found = some o → link = .row o)
      (R := fun s s' found => ∀ o, found = some o → Shows b table shape.entry s s' o)
      (follow_gives table shape.entry column shape.nonNull (stored? row column)) (fun link => ?_) ?_) ?_
    · cases link with
      | row o =>
        refine Gives.pure fun _ o' same => ?_
        rw [Option.some.inj same]
      | empty => exact Gives.pure fun _ o same => nomatch same
      | broken e => exact Gives.throw e
    · intro s s' s'' link found _ after shows same o there
      exact (shows o (same o there)).wider .refl after
    · intro s s' o shape' table' shaped named shows
      obtain rfl := Option.some.inj shaped
      obtain rfl : table = table' := by simpa [FieldShape.table?, kind] using named
      exact .inl (shows o rfl)
  · rename_i table required kind
    split
    · split
      · exact failed _ _
      · exact nothing _
    · rename_i items _
      refine listed (followAll_gives table shape.entry column required items)
        fun links r => ?_
      obtain ⟨result, r', ran, placed, marking⟩ := linkElements_marks here loc required links 0 r
      refine ⟨result, r', _, ran, marking.imp ?_, ?_, ?_⟩
      · rintro rfl
        exact ⟨column, shape, table, rfl, kind⟩
      · rintro ⟨_, _, table', same, kind'⟩
        cases same
        rw [kind] at kind'
        cases kind'
        cases result with
        | error e => exact nomatch placed.fails e rfl
        | ok os => exact ⟨os, rfl, by rw [(placed.items os rfl).1, Nat.zero_add]⟩
      · intro os same s s' shape' table' shaped named shows i member
        obtain rfl := Option.some.inj shaped
        obtain rfl : table = table' := by simpa [FieldShape.table?, kind] using named
        exact ((placed.items os same).2 i member).imp_left (shows i)
    · exact failed _ _

theorem shapeless {resolver : Resolver} (plain : resolver.shape? = none)
    {x : Resolving σ (Option Outcome)} {P : σ → σ → Option Outcome → Prop}
    (gives : Gives b x P) : Resolves b here resolver x := by
  refine gives.resolves ?_
  intro s s' o shape table shaped
  rw [plain] at shaped
  cases shaped

end Resolve

namespace Commit

def sends (plan : MutationPlan) (arguments : Arguments) : List Operation :=
  match (Members.get? plan.argument arguments).bind Datum.asObject? with
  | none => []
  | some input =>
    match operation plan input with
    | .ok op => if op.isEmpty then [] else [op]
    | .error _ => []

theorem mutation_resolved (b : Backend σ) (here : Path) (plan : MutationPlan) (arguments : Arguments)
    (r : Run σ) :
    Resolved b here (.mutation plan) (sends plan arguments) r
      (mutation b plan arguments r).1 (mutation b plan arguments r).2 := by
  -- Marks and errors are left alone, and a mutation shows no rows of a table.
  have moved {ops : List Operation} {s : σ} {result : Except GraphError (Option Outcome)}
      (sent : Sends b r.store ops s) :
      Resolved b here (.mutation plan) ops r result { r with store := s } :=
    ⟨sent, rfl, rfl, fun distinct => distinct, fun _ => .inl rfl, fun _ _ _ shaped => by cases shaped⟩
  cases given : (Members.get? plan.argument arguments).bind Datum.asObject? with
  | none =>
    have ran := mutation_objectless b given r
    change mutation b plan arguments r = _ at ran
    rw [ran, sends, given]
    exact moved .nothing
  | some input =>
    have ran := mutation_eq b (object_given.mp given) r
    change mutation b plan arguments r = _ at ran
    rw [ran]
    cases collected : operation plan input with
    | error e =>
      simp only [sends, given, collected]
      exact moved .nothing
    | ok op =>
      simp only [sends, given, collected]
      by_cases empty : op.isEmpty = true
      · rw [if_pos empty, if_pos empty]
        exact moved .nothing
      · rw [if_neg empty, if_neg empty]
        have sent := Sends.commit (b := b) op (.nothing (s := r.store))
        rcases answer : b.commit op r.store with ⟨e | stamp, s⟩
        · rw [answer] at sent
          exact moved sent
        · rw [answer] at sent
          exact moved sent

end Commit

end RowGraph
