import RowGraph.Datum
import RowGraph.Versionstamp
/-!
Stamps in requests. A stamp is written as a text; the name of an enum value is as good as a text,
and everything else is turned down by its kind.
-/

namespace RowGraph

namespace Datum

-- What a value is, for messages about values of the wrong kind.
def described : Datum → String
  | .null => "null"
  | .bool b => "boolean `" ++ (if b then "true" else "false") ++ "`"
  | .number (.float f) => "floating point `" ++ Decimal.Layout.json.write f ++ "`"
  | .number n => "integer `" ++ n.text ++ "`"
  | .string s => "string " ++ Text.shown s
  | .enum name => "string " ++ Text.shown name
  | .binary _ => "byte array"
  | .list _ => "sequence"
  | .object _ => "map"

end Datum

namespace Versionstamp

-- A stamp is handed out as its text.
def toDatum (v : Versionstamp) : Datum := .string v.text

inductive DatumError where
  | text (e : VersionstampError)
  | kind (found : Datum)

def DatumError.message : DatumError → String
  | .text e => e.message
  | .kind found => "invalid type: " ++ found.described ++ ", expected a string"

def ofDatum : Datum → Except DatumError Versionstamp
  | .string s => (ofText s).mapError .text
  | .enum name => (ofText name).mapError .text
  | d => .error (.kind d)

end Versionstamp

end RowGraph
