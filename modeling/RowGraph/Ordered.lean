/-!
Association lists kept in increasing key order. The raw functions work on plain lists of pairs, so
that they can be used inside recursive types; `OrderedMap` bundles a list with the proof that its
keys increase. Main statements: what `insert` and `erase` do to `lookup`, and that two ordered maps
with the same lookups are the same map.
-/

namespace RowGraph

namespace Assoc

variable {κ : Type} {α β : Type} [Ord κ]

def lookup (k : κ) : List (κ × α) → Option α
  | [] => none
  | (k', a) :: rest => if compare k k' = .eq then some a else lookup k rest

-- A key that is already present keeps its place and gets the new value.
def insert (k : κ) (a : α) : List (κ × α) → List (κ × α)
  | [] => [(k, a)]
  | (k', a') :: rest =>
    match compare k k' with
    | .lt => (k, a) :: (k', a') :: rest
    | .eq => (k, a) :: rest
    | .gt => (k', a') :: insert k a rest

def erase (k : κ) (entries : List (κ × α)) : List (κ × α) :=
  entries.filter fun e => compare k e.1 != .eq

-- Later pairs replace earlier ones with the same key.
def ofList (pairs : List (κ × α)) : List (κ × α) :=
  pairs.foldl (fun m e => insert e.1 e.2 m) []

def Sorted (entries : List (κ × α)) : Prop :=
  entries.Pairwise fun x y => compare x.1 y.1 = .lt

@[simp] theorem lookup_nil (k : κ) : lookup k ([] : List (κ × α)) = none := rfl

theorem mem_of_mem_insert {k : κ} {a : α} {e : κ × α} :
    ∀ {m : List (κ × α)}, e ∈ insert k a m → e = (k, a) ∨ e ∈ m
  | [], h => by simpa [insert] using h
  | (k', a') :: rest, h => by
    unfold insert at h
    split at h
    · simpa using h
    · rcases List.mem_cons.1 h with h | h
      · exact .inl h
      · exact .inr (List.mem_cons_of_mem _ h)
    · rcases List.mem_cons.1 h with h | h
      · exact .inr (h ▸ List.mem_cons_self)
      · exact (mem_of_mem_insert h).imp_right (List.mem_cons_of_mem _)

theorem mem_of_mem_ofList {pairs : List (κ × α)} {e : κ × α} (member : e ∈ ofList pairs) :
    e ∈ pairs := by
  suffices ∀ m : List (κ × α), e ∈ pairs.foldl (fun m e => insert e.1 e.2 m) m → e ∈ m ∨ e ∈ pairs from
    (this [] member).resolve_left List.not_mem_nil
  clear member
  intro m member
  induction pairs generalizing m with
  | nil => exact .inl member
  | cons p rest ih =>
    rcases ih (insert p.1 p.2 m) member with inserted | later
    · rcases mem_of_mem_insert inserted with rfl | old
      · exact .inr List.mem_cons_self
      · exact .inl old
    · exact .inr (List.mem_cons_of_mem _ later)

variable [Std.TransOrd κ]

theorem sorted_insert (k : κ) (a : α) :
    ∀ {m : List (κ × α)}, Sorted m → Sorted (insert k a m)
  | [], _ => by simp [insert, Sorted]
  | (k', a') :: rest, h => by
    have hrest : Sorted rest := (List.pairwise_cons.1 h).2
    have hhead := (List.pairwise_cons.1 h).1
    unfold insert
    split
    · rename_i hlt
      refine List.pairwise_cons.2 ⟨fun e he => ?_, h⟩
      rcases List.mem_cons.1 he with rfl | he
      · exact hlt
      · exact Std.TransCmp.lt_trans hlt (hhead e he)
    · rename_i heq
      refine List.pairwise_cons.2 ⟨fun e he => ?_, hrest⟩
      exact Std.TransCmp.lt_of_eq_of_lt heq (hhead e he)
    · rename_i hgt
      refine List.pairwise_cons.2 ⟨fun e he => ?_, sorted_insert k a hrest⟩
      rcases mem_of_mem_insert he with rfl | he
      · exact Std.OrientedCmp.gt_iff_lt.1 hgt
      · exact hhead e he

omit [Std.TransOrd κ] in
theorem sorted_erase (k : κ) {m : List (κ × α)} (h : Sorted m) : Sorted (erase k m) :=
  List.Pairwise.filter _ h

theorem sorted_ofList (pairs : List (κ × α)) : Sorted (ofList pairs) := by
  unfold ofList
  suffices ∀ m : List (κ × α), Sorted m → Sorted (pairs.foldl (fun m e => insert e.1 e.2 m) m) from
    this [] List.Pairwise.nil
  intro m hm
  induction pairs generalizing m with
  | nil => exact hm
  | cons e rest ih => exact ih _ (sorted_insert _ _ hm)

theorem lookup_insert (k : κ) (a : α) (j : κ) :
    ∀ m : List (κ × α), lookup j (insert k a m) = if compare j k = .eq then some a else lookup j m
  | [] => rfl
  | (k', a') :: rest => by
    unfold insert
    split
    · rfl
    · rename_i heq
      have : compare j k = compare j k' := Std.TransCmp.congr_right heq
      simp only [lookup, this]
      split <;> rfl
    · rename_i hgt
      simp only [lookup, lookup_insert k a j rest]
      by_cases h : compare j k' = .eq
      · have hlt : compare k' k = .lt := Std.OrientedCmp.gt_iff_lt.1 hgt
        have : compare j k = .lt := Std.TransCmp.lt_of_eq_of_lt h hlt
        simp [h, this]
      · simp [h]

theorem lookup_erase (k j : κ) :
    ∀ m : List (κ × α), lookup j (erase k m) = if compare j k = .eq then none else lookup j m
  | [] => by simp [erase]
  | (k', a') :: rest => by
    have ih := lookup_erase k j rest
    unfold erase at ih ⊢
    by_cases h : compare k k' = .eq
    · have hj : compare j k = compare j k' := Std.TransCmp.congr_right h
      simp only [List.filter_cons, h, bne_self_eq_false, Bool.false_eq_true, ↓reduceIte, ih, lookup]
      by_cases hj' : compare j k' = .eq <;> simp [hj, hj']
    · have hb : (compare k k' != .eq) = true := by simpa using h
      simp only [List.filter_cons, hb, ↓reduceIte, lookup, ih]
      by_cases hj' : compare j k' = .eq
      · have : ¬ compare j k = .eq := fun hjk =>
          h (Std.TransCmp.eq_trans (Std.OrientedCmp.eq_comm.1 hjk) hj')
        simp [hj', this]
      · simp [hj']

omit [Std.TransOrd κ] in
theorem lookup_eq_none_of_lt {k : κ} :
    ∀ {m : List (κ × α)}, (∀ e ∈ m, compare k e.1 = .lt) → lookup k m = none
  | [], _ => rfl
  | (k', a') :: rest, h => by
    have hk := h _ List.mem_cons_self
    simp only [lookup, hk]
    simpa using lookup_eq_none_of_lt fun e he => h e (List.mem_cons_of_mem _ he)

-- The lookups determine a sorted list.
theorem ext_of_lookup [Std.LawfulEqOrd κ] :
    ∀ {m n : List (κ × α)}, Sorted m → Sorted n → (∀ k, lookup k m = lookup k n) → m = n
  | [], [], _, _, _ => rfl
  | [], (k, a) :: _, _, _, h => by simpa [lookup] using h k
  | (k, a) :: _, [], _, _, h => by simpa [lookup] using h k
  | (k, a) :: m, (j, b) :: n, hm, hn, h => by
    obtain ⟨hmh, hms⟩ := List.pairwise_cons.1 hm
    obtain ⟨hnh, hns⟩ := List.pairwise_cons.1 hn
    have hkj : compare k j = .eq := by
      cases hc : compare k j with
      | eq => rfl
      | lt =>
        have hnone : lookup k ((j, b) :: n) = none := lookup_eq_none_of_lt fun e he => by
          rcases List.mem_cons.1 he with rfl | he
          · exact hc
          · exact Std.TransCmp.lt_trans hc (hnh e he)
        have := h k
        rw [hnone] at this
        simp [lookup] at this
      | gt =>
        have hjk : compare j k = .lt := Std.OrientedCmp.gt_iff_lt.1 hc
        have hnone : lookup j ((k, a) :: m) = none := lookup_eq_none_of_lt fun e he => by
          rcases List.mem_cons.1 he with rfl | he
          · exact hjk
          · exact Std.TransCmp.lt_trans hjk (hmh e he)
        have := h j
        rw [hnone] at this
        simp [lookup] at this
    obtain rfl := Std.LawfulEqCmp.eq_of_compare hkj
    have hab : a = b := by simpa [lookup] using h k
    subst hab
    have htail : m = n := ext_of_lookup hms hns fun i => by
      by_cases hi : compare i k = .eq
      · obtain rfl := Std.LawfulEqCmp.eq_of_compare hi
        rw [lookup_eq_none_of_lt hmh, lookup_eq_none_of_lt hnh]
      · simpa [lookup, hi] using h i
    rw [htail]

end Assoc

-- A finite map with a canonical form: equal lookups give equal maps.
structure OrderedMap (κ : Type) (α : Type) [Ord κ] where
  entries : List (κ × α)
  sorted : Assoc.Sorted entries

namespace OrderedMap

variable {κ α : Type} [Ord κ]

def empty : OrderedMap κ α := ⟨[], List.Pairwise.nil⟩

instance : Inhabited (OrderedMap κ α) := ⟨empty⟩

def get? (m : OrderedMap κ α) (k : κ) : Option α := Assoc.lookup k m.entries

def toList (m : OrderedMap κ α) : List (κ × α) := m.entries

def keys (m : OrderedMap κ α) : List κ := m.entries.map (·.1)

variable [Std.TransOrd κ]

def insert (m : OrderedMap κ α) (k : κ) (a : α) : OrderedMap κ α :=
  ⟨Assoc.insert k a m.entries, Assoc.sorted_insert k a m.sorted⟩

def erase (m : OrderedMap κ α) (k : κ) : OrderedMap κ α :=
  ⟨Assoc.erase k m.entries, Assoc.sorted_erase k m.sorted⟩

def ofList (pairs : List (κ × α)) : OrderedMap κ α :=
  ⟨Assoc.ofList pairs, Assoc.sorted_ofList pairs⟩

omit [Std.TransOrd κ] in
@[simp] theorem get?_empty (k : κ) : (empty : OrderedMap κ α).get? k = none := rfl

theorem get?_insert (m : OrderedMap κ α) (k j : κ) (a : α) :
    (m.insert k a).get? j = if compare j k = .eq then some a else m.get? j :=
  Assoc.lookup_insert k a j m.entries

theorem get?_erase (m : OrderedMap κ α) (k j : κ) :
    (m.erase k).get? j = if compare j k = .eq then none else m.get? j :=
  Assoc.lookup_erase k j m.entries

theorem ext_get? [Std.LawfulEqOrd κ] {m n : OrderedMap κ α} (h : ∀ k, m.get? k = n.get? k) :
    m = n := by
  obtain ⟨me, ms⟩ := m
  obtain ⟨ne, ns⟩ := n
  obtain rfl : me = ne := Assoc.ext_of_lookup ms ns h
  rfl

end OrderedMap

end RowGraph
