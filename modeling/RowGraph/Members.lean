/-!
Named members in the order in which they were given. A name that is given again keeps its place
and gets the new value.
-/

namespace RowGraph.Members

variable {α : Type}

def get? (name : String) (members : List (String × α)) : Option α :=
  (members.find? fun m => m.1 = name).map (·.2)

def set (name : String) (v : α) : List (String × α) → List (String × α)
  | [] => [(name, v)]
  | (n, w) :: rest => if n = name then (n, v) :: rest else (n, w) :: set name v rest

theorem get?_cons (name : String) (m : String × α) (rest : List (String × α)) :
    get? name (m :: rest) = if m.1 = name then some m.2 else get? name rest := by
  by_cases h : m.1 = name <;> simp [get?, h]

theorem get?_set (name other : String) (v : α) (members : List (String × α)) :
    get? other (set name v members) = if name = other then some v else get? other members := by
  induction members with
  | nil => by_cases h : name = other <;> simp [set, get?, h]
  | cons m rest ih =>
    obtain ⟨n, w⟩ := m
    by_cases hn : n = name
    · subst hn
      by_cases h : n = other <;> simp [set, get?_cons, h]
    · by_cases h : n = other
      · subst h
        simp [set, get?_cons, hn, Ne.symm hn]
      · simp [set, get?_cons, hn, h, ih]

end RowGraph.Members
