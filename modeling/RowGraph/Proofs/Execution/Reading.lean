import RowGraph.Execution.Resolve
/-!
Where a backend can lead, and the rows that resolvers read: the states that a store goes through
while calls are made of it, with the operations that are sent to it and the rows that are read on
the way. Nothing but the store changes while rows are looked up, and every row that is handed on was
read from the store on the way.
-/

namespace RowGraph

variable {σ α β : Type}

inductive Sends (b : Backend σ) (s : σ) : List Operation → σ → Prop where
  | nothing : Sends b s [] s
  | get {ops : List Operation} {t : σ} (key : Key) : Sends b s ops t →
      Sends b s ops (b.get key t).2
  | commit {ops : List Operation} {t : σ} (op : Operation) : Sends b s ops t →
      Sends b s (ops ++ [op]) (b.commit op t).2

theorem Sends.trans {b : Backend σ} {s t u : σ} {ops ops' : List Operation}
    (first : Sends b s ops t) (second : Sends b t ops' u) : Sends b s (ops ++ ops') u := by
  induction second with
  | nothing => rwa [List.append_nil]
  | get key _ ih => exact .get key ih
  | commit op _ ih =>
    rw [← List.append_assoc]
    exact .commit op ih

-- Nothing but one operation is sent, at some moment between two states.
structure SendsOnly (b : Backend σ) (s s' t : σ) (op : Operation) : Prop where
  before : Sends b s [] t
  after : Sends b (b.commit op t).2 [] s'

theorem Sends.single {b : Backend σ} {s u : σ} {op : Operation} (sends : Sends b s [op] u) :
    ∃ t, SendsOnly b s u t op := by
  generalize same : [op] = ops at sends
  induction sends with
  | nothing => cases same
  | get key _ ih =>
    obtain ⟨t, before, after⟩ := ih same
    exact ⟨t, before, .get key after⟩
  | @commit ops t last before _ =>
    cases ops with
    | nil =>
      cases same
      exact ⟨t, before, .nothing⟩
    | cons first rest => simp at same

-- With whatever is sent.
def Moves (b : Backend σ) (s s' : σ) : Prop := ∃ ops, Sends b s ops s'

namespace Moves

variable {b : Backend σ} {s t u : σ}

theorem refl : Moves b s s := ⟨[], .nothing⟩

theorem trans (first : Moves b s t) (second : Moves b t u) : Moves b s u := by
  obtain ⟨ops, sends⟩ := first
  obtain ⟨ops', sends'⟩ := second
  exact ⟨ops ++ ops', sends.trans sends'⟩

theorem keeps (moves : Moves b s t) (Inv : σ → Prop)
    (get : ∀ key s, Inv s → Inv (b.get key s).2) (commit : ∀ op s, Inv s → Inv (b.commit op s).2)
    (start : Inv s) : Inv t := by
  obtain ⟨ops, sends⟩ := moves
  induction sends with
  | nothing => exact start
  | get key _ ih => exact get key _ ih
  | commit op _ ih => exact commit op _ ih

end Moves

-- A row is read at some moment between two states.
structure Reads (b : Backend σ) (s s' t : σ) (key : Key) (e : Entry) : Prop where
  before : Moves b s t
  found : (b.get key t).1 = .ok (some e)
  after : Moves b (b.get key t).2 s'

def Fetched (b : Backend σ) (table : String) (s s' : σ) (e : Entry) : Prop :=
  ∃ rid t, Reads b s s' t ⟨table, rid⟩ e

theorem Fetched.wider {b : Backend σ} {table : String} {s s' t t' : σ} {e : Entry}
    (fetched : Fetched b table s s' e) (before : Moves b t s) (after : Moves b s' t') :
    Fetched b table t t' e := by
  obtain ⟨rid, u, first, found, rest⟩ := fetched
  exact ⟨rid, u, before.trans first, found, rest.trans after⟩

-- Only reads happen.
structure Steady (b : Backend σ) (r r' : Run σ) : Prop where
  store : Sends b r.store [] r'.store
  marks : r'.marks = r.marks
  absorbed : r'.absorbed = r.absorbed
  caught : r'.caught = r.caught

theorem Steady.refl (b : Backend σ) (r : Run σ) : Steady b r r :=
  ⟨.nothing, rfl, rfl, rfl⟩

theorem Steady.trans {b : Backend σ} {r r' r'' : Run σ} (first : Steady b r r')
    (second : Steady b r' r'') : Steady b r r'' :=
  ⟨first.store.trans second.store, second.marks.trans first.marks,
    second.absorbed.trans first.absorbed, second.caught.trans first.caught⟩

theorem Steady.moves {b : Backend σ} {r r' : Run σ} (steady : Steady b r r') :
    Moves b r.store r'.store := ⟨[], steady.store⟩

-- Rows are read, and the answer has something to do with what was read.
def Gives (b : Backend σ) (x : Resolving σ α) (P : σ → σ → α → Prop) : Prop :=
  ∀ r, Steady b r (x r).2 ∧ ∀ a, (x r).1 = .ok a → P r.store (x r).2.store a

namespace Gives

variable {b : Backend σ} {P : σ → σ → α → Prop}

theorem pure {a : α} (holds : ∀ s, P s s a) : Gives b (Pure.pure a) P := by
  intro r
  refine ⟨.refl b r, fun a' same => ?_⟩
  obtain rfl := Except.ok.inj same
  exact holds r.store

theorem lift {x : Except GraphError α} (holds : ∀ a s, x = .ok a → P s s a) :
    Gives b (liftM x) P := by
  intro r
  cases x with
  | ok a => exact pure (holds a · rfl) r
  | error e => exact ⟨.refl b r, fun _ same => nomatch same⟩

theorem throw (e : GraphError) : Gives b (MonadExcept.throw e : Resolving σ α) P :=
  fun r => ⟨.refl b r, fun _ same => nomatch same⟩

theorem bind {x : Resolving σ α} {f : α → Resolving σ β} {Q : α → σ → σ → β → Prop}
    {R : σ → σ → β → Prop} (first : Gives b x P) (rest : ∀ a, Gives b (f a) (Q a))
    (both : ∀ s s' s'' a c, Moves b s s' → Moves b s' s'' → P s s' a → Q a s' s'' c →
      R s s'' c) : Gives b (x >>= f) R := by
  intro r
  obtain ⟨steady, post⟩ := first r
  rw [bind_apply]
  rcases ran : x r with ⟨e | a, r'⟩
  · rw [ran] at steady
    exact ⟨steady, fun c same => nomatch same⟩
  · rw [ran] at steady post
    obtain ⟨steady', next⟩ := rest a r'
    refine ⟨steady.trans steady', fun c same => ?_⟩
    exact both _ _ _ a c steady.moves steady'.moves (post a rfl) (next c same)

end Gives

-- An outcome is a row of a table, read on the way.
def Shows (b : Backend σ) (table : String) (entry : Bool) (s s' : σ) (o : Outcome) : Prop :=
  ∃ e, Fetched b table s s' e ∧ o = e.outcome entry

theorem Shows.wider {b : Backend σ} {table : String} {entry : Bool} {s s' t t' : σ} {o : Outcome}
    (shows : Shows b table entry s s' o) (before : Moves b t s) (after : Moves b s' t') :
    Shows b table entry t t' o := by
  obtain ⟨e, fetched, same⟩ := shows
  exact ⟨e, fetched.wider before after, same⟩

namespace Resolve

variable {b : Backend σ} (table : String) (entry : Bool)

theorem fetch_gives (rid : RowId) :
    Gives b (fetch b ⟨table, rid⟩) fun s s' e? => ∀ e, e? = some e → Fetched b table s s' e := by
  intro r
  unfold fetch
  rcases found : b.get ⟨table, rid⟩ r.store with ⟨e | e?, s⟩
  · refine ⟨⟨?_, rfl, rfl, rfl⟩, fun a same => nomatch same⟩
    have read := Sends.get (b := b) ⟨table, rid⟩ (.nothing (s := r.store))
    rwa [found] at read
  · have read := Sends.get (b := b) ⟨table, rid⟩ (.nothing (s := r.store))
    rw [found] at read
    refine ⟨⟨read, rfl, rfl, rfl⟩, fun a same e some => ?_⟩
    obtain rfl := Except.ok.inj same
    subst some
    exact ⟨rid, r.store, .refl, by rw [found], by rw [found]; exact .refl⟩

theorem rootRow_gives (argument : String) (d : Datum) :
    Gives b (rootRow b argument table entry d) fun s s' o? =>
      ∀ o, o? = some o → Shows b table entry s s' o := by
  refine Gives.bind (Gives.lift (P := fun _ _ _ => True) fun _ _ _ => trivial)
    (fun rid => Gives.bind (fetch_gives table rid)
      (fun e? => Gives.pure (P := fun _ _ o? => o? = e?.map (·.outcome entry)) fun _ => rfl)
      (R := fun s s' o? => ∀ o, o? = some o → Shows b table entry s s' o) ?_) ?_
  · intro s s' s'' e? o? _ after fetched same o some
    subst same
    obtain ⟨e, rfl, rfl⟩ := Option.map_eq_some_iff.mp some
    exact ⟨e, (fetched e rfl).wider .refl after, rfl⟩
  · intro s s' s'' _ o? before _ _ shows o some
    exact (shows o some).wider before .refl

theorem rootRows_gives (argument : String) (ds : List Datum) :
    Gives b (rootRows b argument table entry ds) fun s s' rows =>
      ∀ o, some o ∈ rows → Shows b table entry s s' o := by
  induction ds with
  | nil => exact Gives.pure fun _ o member => nomatch member
  | cons d rest ih =>
    have first : Gives b (if d.isNull then pure none else rootRow b argument table entry d)
        fun s s' o? => ∀ o, o? = some o → Shows b table entry s s' o := by
      split
      · exact Gives.pure fun _ o same => nomatch same
      · exact rootRow_gives table entry argument d
    have unfolded : rootRows b argument table entry (d :: rest) =
        ((if d.isNull then pure none else rootRow b argument table entry d) >>= fun row =>
          rootRows b argument table entry rest >>= fun rows => pure (row :: rows)) := by
      rw [rootRows]
      split <;> rfl
    rw [unfolded]
    refine Gives.bind first (fun row => Gives.bind ih
      (fun rows => Gives.pure (P := fun _ _ all => all = row :: rows) fun _ => rfl)
      (R := fun s s' all => ∀ o, some o ∈ all →
        some o = row ∨ Shows b table entry s s' o) ?_) ?_
    · intro s s' s'' rows all _ after shows same o member
      subst same
      rcases List.mem_cons.mp member with here | later
      · exact .inl here
      · exact .inr ((shows o later).wider .refl after)
    · intro s s' s'' row all before after shows rest o member
      rcases rest o member with here | later
      · exact (shows o here.symm).wider .refl after
      · exact later.wider before .refl

theorem follow_gives (column : String) (required : Bool) (v : Option Value) :
    Gives b (follow b column table entry required v) fun s s' link =>
      ∀ o, link = .row o → Shows b table entry s s' o := by
  unfold follow
  split
  · refine Gives.pure fun _ o same => ?_
    cases required <;> cases same
  · split
    · exact Gives.pure fun _ o same => nomatch same
    · rename_i rid _
      refine Gives.bind (Q := fun e? _ _ link => ∀ o, link = .row o →
        ∃ e, e? = some e ∧ o = e.outcome entry) (fetch_gives table rid) (fun e? => ?_) ?_
      · cases e? with
        | none => exact Gives.pure fun _ o same => nomatch same
        | some e =>
          refine Gives.pure fun _ o same => ?_
          cases same
          exact ⟨e, rfl, rfl⟩
      · intro s s' s'' e? link _ after fetched linked o same
        obtain ⟨e, rfl, rfl⟩ := linked o same
        exact ⟨e, (fetched e rfl).wider .refl after, rfl⟩

theorem followAll_gives (column : String) (required : Bool) (vs : List Value) :
    Gives b (followAll b column table entry required vs) fun s s' links =>
      ∀ o, Link.row o ∈ links → Shows b table entry s s' o := by
  induction vs with
  | nil => exact Gives.pure fun _ o member => nomatch member
  | cons v rest ih =>
    refine Gives.bind (follow_gives table entry column required (present? v)) (fun link => Gives.bind ih
      (fun links => Gives.pure (P := fun _ _ all => all = link :: links) fun _ => rfl)
      (R := fun s s' all => ∀ o, Link.row o ∈ all →
        Link.row o = link ∨ Shows b table entry s s' o) ?_) ?_
    · intro s s' s'' links all _ after shows same o member
      subst same
      rcases List.mem_cons.mp member with here | later
      · exact .inl here
      · exact .inr ((shows o later).wider .refl after)
    · intro s s' s'' link all before after shows rest o member
      rcases rest o member with here | later
      · exact (shows o here.symm).wider .refl after
      · exact later.wider before .refl

-- What each link comes to, whatever is in the store, they all come to.
theorem followAll_each (column : String) (required : Bool) {P : Link → Prop}
    (each : ∀ v, Gives b (follow b column table entry required v) fun _ _ => P) (vs : List Value) :
    Gives b (followAll b column table entry required vs) fun _ _ links => ∀ link ∈ links, P link := by
  induction vs with
  | nil => exact Gives.pure fun _ _ absurd => nomatch absurd
  | cons v rest ih =>
    refine Gives.bind (each (present? v)) (fun link => Gives.bind ih
      (fun links => Gives.pure (P := fun _ _ all => all = link :: links) fun _ => rfl)
      (R := fun _ _ all => ∀ l ∈ all, l = link ∨ P l) ?_) ?_
    · rintro s s' s'' links _ _ _ later rfl l member
      exact (List.mem_cons.mp member).imp_right (later l)
    · intro s s' s'' link all _ _ first later l member
      rcases later l member with rfl | holds
      · exact first
      · exact holds

end Resolve

end RowGraph
