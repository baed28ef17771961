/-!
Places in a text. A `Cursor` is a place together with all that follows it; blanks, commas,
byte-order marks and comments are passed over between the parts of a document and mean nothing
else.
-/

namespace RowGraph

-- Line and column both count from one; a column is one character.
structure Location where
  line : Nat
  column : Nat
deriving DecidableEq, Repr, Inhabited

namespace Location

def start : Location := ⟨1, 1⟩

def step (l : Location) (c : Char) : Location :=
  if c = '\n' then ⟨l.line + 1, 1⟩
  else if c = '\r' then ⟨l.line, 1⟩
  else ⟨l.line, l.column + 1⟩

def after (l : Location) (cs : List Char) : Location := cs.foldl step l

end Location

structure Cursor where
  loc : Location
  rest : List Char

namespace Cursor

def start (source : String) : Cursor := ⟨.start, source.toList⟩

-- Behind the next `count` characters, or at the end if there are fewer.
def advance (c : Cursor) (count : Nat) : Cursor :=
  ⟨c.loc.after (c.rest.take count), c.rest.drop count⟩

def isLineEnd (c : Char) : Bool := c = '\n' || c = '\r'

def isBlank (c : Char) : Bool := c = ' ' || c = ',' || c = '\t' || c = '\ufeff' || isLineEnd c

-- A comment goes up to the end of its line.
def skipFrom (inComment : Bool) (loc : Location) : List Char → Cursor
  | [] => ⟨loc, []⟩
  | c :: cs =>
    if inComment then skipFrom (!isLineEnd c) (loc.step c) cs
    else if isBlank c then skipFrom false (loc.step c) cs
    else if c = '#' then skipFrom true (loc.step c) cs
    else ⟨loc, c :: cs⟩

-- Behind all blanks and comments that come next.
def skip (c : Cursor) : Cursor := skipFrom false c.loc c.rest

end Cursor

end RowGraph
