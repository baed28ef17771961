/-!
Type expressions: a name below any number of list wrappers, each level nullable or not. The text of
an expression puts brackets around items and an exclamation mark after what may not be null;
`read?` takes that text apart again from the outside in. An executable schema has the same types
with every mark as a wrapper of its own.
-/

namespace RowGraph

inductive TypeExpr where
  | named (name : String) (nonNull : Bool)
  | list (item : TypeExpr) (nonNull : Bool)
deriving DecidableEq, Repr, Inhabited

namespace TypeExpr

def nonNull : TypeExpr → Bool
  | .named _ b => b
  | .list _ b => b

def nullable (t : TypeExpr) : Bool := !t.nonNull

-- The name below every wrapper.
def name : TypeExpr → String
  | .named n _ => n
  | .list item _ => item.name

def isList : TypeExpr → Bool
  | .named _ _ => false
  | .list _ _ => true

-- The same expression with the outermost level nullable.
def asNullable : TypeExpr → TypeExpr
  | .named n _ => .named n false
  | .list item _ => .list item false

def mark (nonNull : Bool) : List Char := if nonNull then ['!'] else []

def chars : TypeExpr → List Char
  | .named n b => n.toList ++ mark b
  | .list item b => '[' :: (item.chars ++ ']' :: mark b)

def text (t : TypeExpr) : String := String.ofList t.chars

-- All of the text is the name, whatever it holds, unless it starts with a bracket.
def readChars (cs : List Char) : Option TypeExpr :=
  let nonNull := cs.getLast? == some '!'
  let body := if nonNull then cs.dropLast else cs
  match _h : body with
  | '[' :: rest =>
    if rest.getLast? == some ']' then
      (readChars rest.dropLast).map fun item => .list item nonNull
    else none
  | _ => some (.named (String.ofList body) nonNull)
termination_by cs.length
decreasing_by
  have hb : body.length ≤ cs.length := by
    simp only [body]
    split
    · simp [List.length_dropLast]
    · exact Nat.le_refl _
  rw [_h] at hb
  simp only [List.length_dropLast, List.length_cons] at *
  omega

def read? (s : String) : Option TypeExpr := readChars s.toList

end TypeExpr

inductive TypeRef where
  | named (name : String)
  | nonNull (inside : TypeRef)
  | list (item : TypeRef)
deriving DecidableEq, Repr, Inhabited

namespace TypeRef

def chars : TypeRef → List Char
  | .named name => name.toList
  | .nonNull inside => inside.chars ++ ['!']
  | .list item => '[' :: (item.chars ++ [']'])

def text (r : TypeRef) : String := String.ofList r.chars

def marked (nonNull : Bool) (r : TypeRef) : TypeRef := if nonNull then .nonNull r else r

end TypeRef

-- The type as it is served.
def TypeExpr.toRef : TypeExpr → TypeRef
  | .named name nonNull => .marked nonNull (.named name)
  | .list item nonNull => .marked nonNull (.list item.toRef)

end RowGraph
