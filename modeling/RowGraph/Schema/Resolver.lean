import RowGraph.Schema.FieldMap
import RowGraph.Schema.Shape
/-!
How the field of an object type gets its value, and hooks, which look at the arguments of a field
before it is resolved and may stop it. Only fields that have a resolver can have hooks.
-/

namespace RowGraph

-- One field of a mutation input and what its items do.
structure Binding where
  field : String
  op : WriteKind
  table : String
deriving DecidableEq, Repr

-- What a mutation field shows of the stamp of its commit.
inductive MutationResult where
  | stamp
  | object
deriving DecidableEq, Repr

structure MutationPlan where
  argument : String
  bindings : List Binding
  result : MutationResult
deriving DecidableEq, Repr

inductive Resolver where
  -- A root query field: rows by the id, or the ids, in an argument.
  | root (argument : String) (shape : FieldShape)
  -- A leaf column of the parent row.
  | column (name : String)
  -- A column of the parent row that holds the id, or the ids, of other rows.
  | reference (column : String) (shape : FieldShape)
  -- The row inside an entry.
  | value
  -- A root mutation field: one atomic operation.
  | mutation (plan : MutationPlan)
deriving DecidableEq, Repr

namespace Resolver

def shape? : Resolver → Option FieldShape
  | .root _ shape => some shape
  | .reference _ shape => some shape
  | .column _ | .value | .mutation _ => none

def shown : Resolver → String
  | .root _ shape => "Root(" ++ shape.shown ++ ")"
  | .column _ => "Column"
  | .reference _ shape => "Reference(" ++ shape.shown ++ ")"
  | .value => "Value"
  | .mutation _ => "Mutation"

end Resolver

abbrev ResolverMap := FieldMap Resolver

namespace ResolverMap

def shownFields (fields : OrderedMap String Resolver) : String :=
  "\x7b" ++ ", ".intercalate (fields.toList.map fun (f, r) => Text.shown f ++ ": " ++ r.shown) ++
    "\x7d"

def shown (m : ResolverMap) : String :=
  "ResolverMap(\x7b" ++
    ", ".intercalate (m.types.toList.map fun (t, fields) =>
      Text.shown t ++ ": " ++ shownFields fields) ++ "\x7d)"

end ResolverMap

abbrev Arguments := List (String × Datum)

-- A hook is known by its label; it refuses a field by giving a message.
structure Hook where
  label : String
  refusal? : Arguments → Option String

namespace Hook

def observe (label : String) : Hook := ⟨label, fun _ => none⟩

def refuse (label message : String) : Hook := ⟨label, fun _ => some message⟩

-- Refuses when the named argument, as JSON, is the given value. The name of an enum value is a text
-- there; a text is still no number.
def refuseWhen (label message argument : String) (value : Json) : Hook :=
  ⟨label, fun arguments =>
    match Members.get? argument arguments with
    | some v => if Datum.ofJson v.toJson == Datum.ofJson value then some message else none
    | none => none⟩

end Hook

abbrev HookMap := FieldMap (List Hook)

namespace HookMap

-- Hooks that are already there are kept.
def placeholder (m : HookMap) (type field : String) : HookMap :=
  FieldMap.insert m type field ((FieldMap.get? m type field).getD [])

def attach (m : HookMap) (type field : String) (h : Hook) : Except SchemaProblem HookMap :=
  match FieldMap.get? m type field with
  | some hooks => .ok (FieldMap.insert m type field (hooks ++ [h]))
  | none => .error (.unknownHookField type field)

-- The fields with the number of hooks on each.
def shown (m : HookMap) : String :=
  "\x7b" ++
    ", ".intercalate ((FieldMap.toList m).map fun (t, f, hooks) =>
      t ++ "." ++ f ++ ": " ++ toString hooks.length) ++ "\x7d"

end HookMap

end RowGraph
