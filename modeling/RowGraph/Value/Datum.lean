import RowGraph.Error
/-!
Between raw column values and GraphQL values. Going out, an absent value is null and a double must
be finite; coming in, the name of an enum value becomes a text and bytes are refused.
-/

namespace RowGraph.Value

mutual

def toDatum : Value → Except GraphError Datum
  | .none | .null => .ok .null
  | .bool b => .ok (.bool b)
  | .int n => .ok (.number (.int n))
  | .float f =>
    if isFinite f then .ok (.number (.float f)) else .error (ResolveProblem.notFinite f).error
  | .string s => .ok (.string s)
  | .array items => (toDatumItems items).map .list
  | .object columns => (toDatumColumns columns).map .object

def toDatumItems : List Value → Except GraphError (List Datum)
  | [] => .ok []
  | v :: rest => do
    let d ← toDatum v
    let ds ← toDatumItems rest
    .ok (d :: ds)

def toDatumColumns : List (String × Value) → Except GraphError (List (String × Datum))
  | [] => .ok []
  | (name, v) :: rest => do
    let d ← toDatum v
    let ds ← toDatumColumns rest
    .ok ((name, d) :: ds)

end

mutual

def ofDatum : Datum → Except GraphError Value
  | .null => .ok .null
  | .bool b => .ok (.bool b)
  | .number (.int n) => .ok (.int n)
  | .number n => .ok (.float n.toFloat)
  | .string s => .ok (.string s)
  | .enum name => .ok (.string name)
  | .binary _ => .error ResolveProblem.binaryInput.error
  | .list items => (ofDatumItems items).map .array
  | .object members => (ofDatumMembers members).map fun columns => .object (Row.ofColumns columns)

def ofDatumItems : List Datum → Except GraphError (List Value)
  | [] => .ok []
  | d :: rest => do
    let v ← ofDatum d
    let vs ← ofDatumItems rest
    .ok (v :: vs)

def ofDatumMembers : List (String × Datum) → Except GraphError (List (String × Value))
  | [] => .ok []
  | (name, d) :: rest => do
    let v ← ofDatum d
    let vs ← ofDatumMembers rest
    .ok ((name, v) :: vs)

end

end RowGraph.Value
