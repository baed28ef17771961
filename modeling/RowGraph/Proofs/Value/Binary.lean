import RowGraph.Value.Datum
/-!
Which request values can be stored. A value is turned down exactly when there are bytes somewhere in
it, and always with the same error.
-/

namespace RowGraph

namespace Datum

mutual

def hasBinary : Datum → Bool
  | .binary _ => true
  | .list items => hasBinaryItems items
  | .object members => hasBinaryMembers members
  | _ => false

def hasBinaryItems : List Datum → Bool
  | [] => false
  | d :: rest => hasBinary d || hasBinaryItems rest

def hasBinaryMembers : List (String × Datum) → Bool
  | [] => false
  | (_, d) :: rest => hasBinary d || hasBinaryMembers rest

end

theorem hasBinaryItems_eq_any (items : List Datum) :
    hasBinaryItems items = items.any hasBinary := by
  induction items with
  | nil => rfl
  | cons d rest ih => rw [hasBinaryItems, List.any_cons, ih]

theorem hasBinaryMembers_eq_any (members : List (String × Datum)) :
    hasBinaryMembers members = members.any fun m => m.2.hasBinary := by
  induction members with
  | nil => rfl
  | cons m rest ih => rw [hasBinaryMembers, List.any_cons, ih]

end Datum

namespace Value

-- What storing a value comes to, by whether there are bytes in it.
def Stores : Bool → Except GraphError α → Prop
  | true, result => result = .error ResolveProblem.binaryInput.error
  | false, result => ∃ a, result = .ok a

theorem Stores.map {binary : Bool} {result : Except GraphError α} (stores : Stores binary result)
    (f : α → β) : Stores binary (result.map f) := by
  cases binary with
  | false =>
    obtain ⟨a, rfl⟩ := stores
    exact ⟨f a, rfl⟩
  | true =>
    obtain rfl : result = .error _ := stores
    rfl

-- The first part decides if it has bytes in it, and the second otherwise.
theorem Stores.bind {first second : Bool} {x : Except GraphError α} {y : Except GraphError β}
    (left : Stores first x) (right : Stores second y) (f : α → β → γ) :
    Stores (first || second) (x >>= fun a => y >>= fun b => Except.ok (f a b)) := by
  cases first with
  | true =>
    obtain rfl : x = .error _ := left
    rfl
  | false =>
    obtain ⟨a, rfl⟩ := left
    exact right.map (f a)

mutual

theorem ofDatum_stores : ∀ d : Datum, Stores d.hasBinary (ofDatum d)
  | .null => ⟨_, by rw [ofDatum]⟩
  | .bool b => ⟨_, by rw [ofDatum]⟩
  | .number (.int n) => ⟨_, by rw [ofDatum]⟩
  | .number (.wide n) => ⟨_, by rw [ofDatum]; simp⟩
  | .number (.float f) => ⟨_, by rw [ofDatum]; simp⟩
  | .string s => ⟨_, by rw [ofDatum]⟩
  | .enum name => ⟨_, by rw [ofDatum]⟩
  | .binary bytes => by rw [ofDatum]; rfl
  | .list items => by
    rw [Datum.hasBinary, ofDatum]
    exact (ofDatumItems_stores items).map _
  | .object members => by
    rw [Datum.hasBinary, ofDatum]
    exact (ofDatumMembers_stores members).map _

theorem ofDatumItems_stores : ∀ items : List Datum,
    Stores (Datum.hasBinaryItems items) (ofDatumItems items)
  | [] => ⟨_, by rw [ofDatumItems]⟩
  | d :: rest => by
    rw [Datum.hasBinaryItems, ofDatumItems]
    exact (ofDatum_stores d).bind (ofDatumItems_stores rest) List.cons

theorem ofDatumMembers_stores : ∀ members : List (String × Datum),
    Stores (Datum.hasBinaryMembers members) (ofDatumMembers members)
  | [] => ⟨_, by rw [ofDatumMembers]⟩
  | (name, d) :: rest => by
    rw [Datum.hasBinaryMembers, ofDatumMembers]
    exact (ofDatum_stores d).bind (ofDatumMembers_stores rest) fun v vs => (name, v) :: vs

end

end Value

end RowGraph
