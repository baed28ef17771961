import RowGraph.Language.Cursor
import RowGraph.Language.Quotation
import RowGraph.Language.TypeExpr
/-!
Pieces that grammars are put together from. A grammar reads a part of a text from a cursor or fails
without saying why; of several alternatives the first that succeeds is taken for good. Fixed words
need no blank behind them, and names are as long as they can be.
-/

namespace RowGraph

abbrev Grammar (α : Type) := StateT Cursor Option α

namespace Grammar

def isNameStart (c : Char) : Bool := c.isAlpha || c = '_'

def isNamePart (c : Char) : Bool := c.isAlphanum || c = '_'

def startsName : List Char → Bool
  | c :: _ => isNameStart c
  | [] => false

-- Where the next part starts.
def here : Grammar Location := fun c =>
  let c := c.skip
  some (c.loc, c)

-- A part that has no blanks inside, given by a function that splits it off a text.
def lexeme (take? : List Char → Option (α × List Char)) : Grammar α := fun c =>
  let c := c.skip
  (take? c.rest).map fun (a, rest) => (a, c.advance (c.rest.length - rest.length))

-- A fixed word or sign.
def literal (text : String) : Grammar Unit :=
  lexeme fun cs => if text.toList.isPrefixOf cs then some ((), cs.drop text.length) else none

def symbol (c : Char) : Grammar Unit := literal c.toString

def takeName? (cs : List Char) : Option (String × List Char) :=
  if startsName cs then
    some (String.ofList (cs.takeWhile isNamePart), cs.dropWhile isNamePart)
  else none

def name : Grammar String := lexeme takeName?

def string : Grammar String := lexeme Quotation.take?

-- A number may not run into a name.
def takeNumber? (cs : List Char) : Option (Number × List Char) := do
  let (parts, rest) ← Number.Parts.take cs
  let n ← parts.read
  if startsName rest then none else some (n, rest)

def number : Grammar Number := lexeme takeNumber?

def takeMark (cs : List Char) : Bool × List Char :=
  match cs with
  | '!' :: rest => (true, rest)
  | _ => (false, cs)

def takeType? : Nat → List Char → Option (TypeExpr × List Char)
  | 0, _ => none
  | fuel + 1, '[' :: rest => do
    match ← takeType? fuel rest with
    | (item, ']' :: rest) =>
      let (nonNull, rest) := takeMark rest
      some (.list item nonNull, rest)
    | _ => none
  | _ + 1, cs => do
    let (n, rest) ← takeName? cs
    let (nonNull, rest) := takeMark rest
    some (.named n nonNull, rest)

def typeExpr : Grammar TypeExpr := lexeme fun cs => takeType? (cs.length + 1) cs

-- Reads nothing, and succeeds if the other grammar fails.
def absent (g : Grammar α) : Grammar Unit := fun c =>
  match g c with
  | some _ => none
  | none => some ((), c)

def firstOf : List (Grammar α) → Grammar α
  | [] => failure
  | g :: rest => g <|> firstOf rest

-- One of several words.
def word (words : List String) : Grammar String :=
  firstOf (words.map fun w => do
    literal w
    pure w)

def opt (g : Grammar α) : Grammar (Option α) := fun c =>
  match g c with
  | some (a, c) => some (some a, c)
  | none => some (none, c)

def manyFrom (g : Grammar α) (done : List α) : Nat → Cursor → Option (List α × Cursor)
  | 0, c => some (done.reverse, c)
  | fuel + 1, c =>
    match g c with
    | some (a, c) => manyFrom g (a :: done) fuel c
    | none => some (done.reverse, c)

-- As often as it goes; every round reads at least one character.
def many (g : Grammar α) : Grammar (List α) := fun c => manyFrom g [] c.rest.length c

def many1 (g : Grammar α) : Grammar (List α) := do
  let a ← g
  let rest ← many g
  pure (a :: rest)

-- One or more with a sign between them, and perhaps one in front.
def separated (sign : Char) (g : Grammar α) : Grammar (List α) := do
  let _ ← opt (symbol sign)
  let a ← g
  let rest ← many do
    symbol sign
    g
  pure (a :: rest)

def between (opening closing : Char) (g : Grammar α) : Grammar α := do
  symbol opening
  let a ← g
  symbol closing
  pure a

-- A non-empty block or nothing at all, which is the empty list.
def block (opening closing : Char) (g : Grammar α) : Grammar (List α) := do
  pure ((← opt (between opening closing (many1 g))).getD [])

-- The whole text must be read.
def run (g : Grammar α) (source : String) : Option α := do
  let (a, c) ← g (.start source)
  if c.skip.rest.isEmpty then some a else none

end Grammar

end RowGraph
