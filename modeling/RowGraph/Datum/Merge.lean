import RowGraph.Datum
/-!
Results that were computed separately for one response key. Objects are joined member by member
and lists of objects element by element; for everything else the first result stands.
-/

namespace RowGraph.Datum

mutual

-- What the second result adds to the first.
def join (first : Datum) : Datum → Datum
  | .object members =>
    match first with
    | .object old => .object (addMembers old members)
    | _ => first
  | .list items =>
    match first with
    | .list old => .list (joinItems old items)
    | _ => first
  | _ => first

-- Lists inside lists are not joined.
def joinItem (first : Datum) : Datum → Datum
  | .object members =>
    match first with
    | .object old => .object (addMembers old members)
    | _ => first
  | _ => first

-- Elements beyond the end of the first list are dropped.
def joinItems : List Datum → List Datum → List Datum
  | [], _ => []
  | old, [] => old
  | first :: old, item :: items => joinItem first item :: joinItems old items

def addMembers (old : List (String × Datum)) :
    List (String × Datum) → List (String × Datum)
  | [] => old
  | (name, v) :: rest =>
    let joined := match Members.get? name old with
      | some first => join first v
      | none => v
    addMembers (Members.set name joined old) rest

end

-- An object of results in the order in which their keys first come up.
def ofResults (results : List (String × Datum)) : Datum := .object (addMembers [] results)

end RowGraph.Datum
