import RowGraph.Datum
import RowGraph.Language.Grammar
/-!
Literals of a request: GraphQL values in which variables may stand. Without a variable a literal
denotes a `Datum`; with variables it denotes one as soon as each of them has a value.
-/

namespace RowGraph

inductive Literal where
  | var (name : String)
  | null
  | bool (b : Bool)
  | number (n : Number)
  | string (s : String)
  | enum (name : String)
  | list (items : List Literal)
  | object (members : List (String × Literal))

namespace Literal

instance : Inhabited Literal := ⟨null⟩

mutual

-- Variables are looked up from left to right, and the first that has no value decides.
def eval (lookup : String → Except ε Datum) : Literal → Except ε Datum
  | .var name => lookup name
  | .null => .ok .null
  | .bool b => .ok (.bool b)
  | .number n => .ok (.number n)
  | .string s => .ok (.string s)
  | .enum name => .ok (.enum name)
  | .list items => (evalItems lookup items).map .list
  | .object members => (evalMembers lookup members).map .object

def evalItems (lookup : String → Except ε Datum) : List Literal → Except ε (List Datum)
  | [] => .ok []
  | l :: rest => do
    let d ← eval lookup l
    let ds ← evalItems lookup rest
    .ok (d :: ds)

def evalMembers (lookup : String → Except ε Datum) :
    List (String × Literal) → Except ε (List (String × Datum))
  | [] => .ok []
  | (name, l) :: rest => do
    let d ← eval lookup l
    let ds ← evalMembers lookup rest
    .ok ((name, d) :: ds)

end

def constant? (l : Literal) : Option Datum :=
  (l.eval fun _ => (.error () : Except Unit Datum)).toOption

mutual

-- The variables in a literal, in order, with repeats.
def vars : Literal → List String
  | .var name => [name]
  | .list items => varsItems items
  | .object members => varsMembers members
  | _ => []

def varsItems : List Literal → List String
  | [] => []
  | l :: rest => vars l ++ varsItems rest

def varsMembers : List (String × Literal) → List String
  | [] => []
  | (_, l) :: rest => vars l ++ varsMembers rest

end

mutual

-- Members of an object may come in any order.
def beq : Literal → Literal → Bool
  | .var a, .var b => a == b
  | .null, .null => true
  | .bool a, .bool b => a == b
  | .number a, .number b => a == b
  | .string a, .string b => a == b
  | .enum a, .enum b => a == b
  | .list as, .list bs => beqItems as bs
  | .object as, .object bs => as.length == bs.length && beqMembers as bs
  | _, _ => false

def beqItems : List Literal → List Literal → Bool
  | [], [] => true
  | a :: as, b :: bs => beq a b && beqItems as bs
  | _, _ => false

def beqMembers : List (String × Literal) → List (String × Literal) → Bool
  | [], _ => true
  | (n, a) :: as, bs =>
    (match Members.get? n bs with
      | some b => beq a b
      | none => false) && beqMembers as bs

end

instance : BEq Literal := ⟨beq⟩

-- The words that are values of their own. A longer name may start with one and is then read in two
-- parts.
def constantWord : Grammar Literal := Grammar.firstOf [
  (do
    Grammar.literal "true"
    pure (.bool true)),
  (do
    Grammar.literal "false"
    pure (.bool false)),
  (do
    Grammar.literal "null"
    pure .null)]

-- A name that starts with none of those words.
def enumName : Grammar String := do
  Grammar.absent constantWord
  Grammar.name

def grammarFrom : Nat → Grammar Literal
  | 0 => failure
  | fuel + 1 => Grammar.firstOf [
    (do
      Grammar.symbol '$'
      pure (.var (← Grammar.name))),
    .number <$> Grammar.number,
    .string <$> Grammar.string,
    constantWord,
    .enum <$> enumName,
    .list <$> Grammar.between '[' ']' (Grammar.many (grammarFrom fuel)),
    (do
      let members ← Grammar.between '\x7b' '\x7d' (Grammar.many do
        let name ← Grammar.name
        Grammar.symbol ':'
        let v ← grammarFrom fuel
        pure (name, v))
      pure (.object (members.foldl (fun done m => Members.set m.1 m.2 done) [])))]

def grammar : Grammar Literal := fun c => grammarFrom (c.rest.length + 1) c

-- A literal in which no variable may stand.
def constantGrammar : Grammar Datum := do
  match (← grammar).constant? with
  | some d => pure d
  | none => failure

end Literal

end RowGraph
