import RowGraph.Text.Printable
/-!
Three ways to put a text between double quotes: for people reading a diagnosis (`shown`), as a JSON
string (`json`), and as a GraphQL string (`graphql`). They differ in which characters they escape
and in how an escape spells a code point.
-/

namespace RowGraph.Text

def hexDigits (n : Nat) : String := String.ofList (Nat.toDigits 16 n)

-- Left padding with zeros; a longer text is left alone.
def padded (width : Nat) (s : String) : String :=
  String.ofList (List.replicate (width - s.length) '0') ++ s

-- A code point in hexadecimal between braces.
def codePoint (c : Char) : String := "\\u\x7b" ++ hexDigits c.toNat ++ "\x7d"

def shownChar (quote : Char) (c : Char) : String :=
  if c = '\x00' then "\\0"
  else if c = '\t' then "\\t"
  else if c = '\r' then "\\r"
  else if c = '\n' then "\\n"
  else if c = '\\' then "\\\\"
  else if c = quote then "\\" ++ c.toString
  else if isHidden c then codePoint c
  else c.toString

def concatMap (f : Char → String) (s : String) : String :=
  s.toList.foldl (fun acc c => acc ++ f c) ""

-- Double quotes around a text whose hidden characters are made visible.
def shown (s : String) : String := "\"" ++ concatMap (shownChar '"') s ++ "\""

-- Single quotes around one character.
def shownSingle (c : Char) : String := "'" ++ shownChar '\'' c ++ "'"

def jsonChar (c : Char) : String :=
  if c = '"' then "\\\""
  else if c = '\\' then "\\\\"
  else if c = '\x08' then "\\b"
  else if c = '\x0c' then "\\f"
  else if c = '\n' then "\\n"
  else if c = '\r' then "\\r"
  else if c = '\t' then "\\t"
  else if c.toNat < 0x20 then "\\u" ++ padded 4 (hexDigits c.toNat)
  else c.toString

def json (s : String) : String := "\"" ++ concatMap jsonChar s ++ "\""

def isControl (c : Char) : Bool := c.toNat < 0x20 || (0x7f ≤ c.toNat && c.toNat < 0xa0)

-- The code point of an escaped control character is written in decimal, to four places.
def graphqlChar (c : Char) : String :=
  if c = '\r' then "\\r"
  else if c = '\n' then "\\n"
  else if c = '\t' then "\\t"
  else if c = '"' then "\\\""
  else if c = '\\' then "\\\\"
  else if isControl c then "\\u" ++ padded 4 (toString c.toNat)
  else c.toString

def graphql (s : String) : String := "\"" ++ concatMap graphqlChar s ++ "\""

end RowGraph.Text
