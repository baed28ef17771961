import RowGraph.Value
import RowGraph.Text.Quoted
/-!
Row keys: a table name and a row id, ordered by table and then by id. Ids are texts; an integer
names the row of its decimal text.
-/

namespace RowGraph

structure RowId where
  text : String
deriving DecidableEq, Repr, Inhabited

namespace RowId

def ofInt (n : Int64) : RowId := ⟨toString n.toInt⟩

-- Only a text or an integer can name a row.
def ofValue? : Value → Option RowId
  | .string s => some ⟨s⟩
  | .int n => some (ofInt n)
  | _ => none

def toValue (id : RowId) : Value := .string id.text

def shown (id : RowId) : String := Text.shown id.text

end RowId

structure Key where
  table : String
  id : RowId
deriving DecidableEq, Repr, Inhabited

namespace Key

instance : Ord Key :=
  ⟨fun a b => (compare a.table b.table).then (compare a.id.text b.id.text)⟩

theorem compare_def (a b : Key) :
    compare a b = (compare a.table b.table).then (compare a.id.text b.id.text) := rfl

instance : Std.OrientedOrd Key where
  eq_swap := by
    intro a b
    rw [compare_def, compare_def, Ordering.swap_then, ← Std.OrientedOrd.eq_swap,
      ← Std.OrientedOrd.eq_swap]

instance : Std.TransOrd Key where
  isLE_trans := by
    intro a b c h₁ h₂
    simp only [compare_def] at *
    rw [Ordering.isLE_then_iff_or] at *
    rcases h₁ with h₁ | ⟨h₁, h₁'⟩
    · rcases h₂ with h₂ | ⟨h₂, _⟩
      · exact .inl (Std.TransCmp.lt_trans h₁ h₂)
      · exact .inl (Std.TransCmp.lt_of_lt_of_eq h₁ h₂)
    · rcases h₂ with h₂ | ⟨h₂, h₂'⟩
      · exact .inl (Std.TransCmp.lt_of_eq_of_lt h₁ h₂)
      · exact .inr ⟨Std.TransCmp.eq_trans h₁ h₂, Std.TransCmp.isLE_trans h₁' h₂'⟩

instance : Std.LawfulEqOrd Key where
  compare_self := by intro a; simp
  eq_of_compare := by
    intro a b h
    rw [compare_def, Ordering.then_eq_eq] at h
    obtain ⟨ta, ⟨ia⟩⟩ := a
    obtain ⟨tb, ⟨ib⟩⟩ := b
    obtain ⟨h₁, h₂⟩ := h
    obtain rfl := Std.LawfulEqOrd.eq_of_compare h₁
    obtain rfl := Std.LawfulEqOrd.eq_of_compare h₂
    rfl

def display (k : Key) : String := "[" ++ Text.shown k.table ++ ", " ++ k.id.shown ++ "]"

def shown (k : Key) : String := "Key" ++ k.display

end Key

end RowGraph
