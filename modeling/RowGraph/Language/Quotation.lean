import RowGraph.Json.Reader
/-!
Quoted texts of a document. One between single quotes stays on its line and knows escapes; a block
between triple quotes takes everything as it is and is then freed from the indent that its lines
share. Both functions split the text off the front and return what follows it.
-/

namespace RowGraph.Quotation

-- The escape of one letter.
def escaped? (c : Char) : Option Char :=
  match c with
  | '"' | '\\' | '/' => some c
  | 'b' => some '\x08'
  | 'f' => some '\x0c'
  | 'n' => some '\n'
  | 'r' => some '\r'
  | 't' => some '\t'
  | _ => none

-- Four hexadecimal digits, if they name a character.
def codePoint? (cs : List Char) : Option (Char × List Char) := do
  let (code, rest) ← Json.fourHex? cs
  if code < 0xd800 ∨ 0xe000 ≤ code then some (Char.ofNat code, rest) else none

-- Up to the closing quote; `done` holds the characters so far, last one first.
def lineFrom (done : List Char) : Nat → List Char → Option (List Char × List Char)
  | 0, _ => none
  | _ + 1, [] => none
  | fuel + 1, c :: rest =>
    if c = '"' then some (done.reverse, rest)
    else if c = '\\' then
      match rest with
      | 'u' :: rest => (codePoint? rest).bind fun (c, rest) => lineFrom (c :: done) fuel rest
      | c :: rest => (escaped? c).bind fun c => lineFrom (c :: done) fuel rest
      | [] => none
    else if c = '\n' ∨ c = '\r' then none
    else lineFrom (c :: done) fuel rest

-- The raw content of a block, up to three quotes that no backslash precedes. The backslash before
-- three quotes belongs to the content, and so do they.
def blockFrom (done : List Char) : List Char → Option (List Char × List Char)
  | '"' :: '"' :: '"' :: rest => some (done.reverse, rest)
  | '\\' :: '"' :: '"' :: '"' :: rest => blockFrom ('"' :: '"' :: '"' :: '\\' :: done) rest
  | c :: rest => blockFrom (c :: done) rest
  | [] => none

-- Lines end at a carriage return, a line feed, or both together.
def splitLines (line : List Char) : List Char → List (List Char)
  | '\r' :: '\n' :: rest => line.reverse :: splitLines [] rest
  | c :: rest =>
    if c = '\n' ∨ c = '\r' then line.reverse :: splitLines [] rest
    else splitLines (c :: line) rest
  | [] => [line.reverse]

def isIndent (c : Char) : Bool := c = ' ' || c = '\t'

-- The indent that all lines but the first share is dropped, and so are the empty lines at either
-- end.
def blockValue (raw : List Char) : List Char :=
  let lines := splitLines [] raw
  let indents := (lines.drop 1).filterMap fun line =>
    if line.all isIndent then none else some (line.takeWhile isIndent).length
  let common := indents.min?.getD 0
  let lines := lines.take 1 ++ (lines.drop 1).map fun line =>
    if common ≤ line.length then line.drop common else line
  let lines := lines.dropWhile fun line => line.all isIndent
  let lines := (lines.reverse.dropWhile fun line => line.all isIndent).reverse
  (lines.intersperse ['\n']).flatten

-- Between single quotes.
def line? : List Char → Option (String × List Char)
  | '"' :: rest => (lineFrom [] (rest.length + 1) rest).map fun (s, r) => (String.ofList s, r)
  | _ => none

-- Between triple quotes.
def block? : List Char → Option (String × List Char)
  | '"' :: '"' :: '"' :: rest =>
    (blockFrom [] rest).map fun (raw, r) => (String.ofList (blockValue raw), r)
  | _ => none

-- Triple quotes that are never closed are an empty text and the start of another.
def take? (cs : List Char) : Option (String × List Char) := block? cs <|> line? cs

end RowGraph.Quotation
