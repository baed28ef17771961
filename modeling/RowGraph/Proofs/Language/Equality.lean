import RowGraph.Language.Definition
/-!
Values and definitions can be compared, part by part.
-/

namespace RowGraph

deriving instance DecidableEq for Number

mutual

def Datum.decEq : (a b : Datum) → Decidable (a = b)
  | .null, b =>
    match b with
    | .null => isTrue rfl
    | .bool _ | .number _ | .string _ | .enum _ | .binary _ | .list _ | .object _ => isFalse nofun
  | .bool x, b =>
    match b with
    | .bool y => decidable_of_iff (x = y) ⟨congrArg _, Datum.bool.inj⟩
    | .null | .number _ | .string _ | .enum _ | .binary _ | .list _ | .object _ => isFalse nofun
  | .number x, b =>
    match b with
    | .number y => decidable_of_iff (x = y) ⟨congrArg _, Datum.number.inj⟩
    | .null | .bool _ | .string _ | .enum _ | .binary _ | .list _ | .object _ => isFalse nofun
  | .string x, b =>
    match b with
    | .string y => decidable_of_iff (x = y) ⟨congrArg _, Datum.string.inj⟩
    | .null | .bool _ | .number _ | .enum _ | .binary _ | .list _ | .object _ => isFalse nofun
  | .enum x, b =>
    match b with
    | .enum y => decidable_of_iff (x = y) ⟨congrArg _, Datum.enum.inj⟩
    | .null | .bool _ | .number _ | .string _ | .binary _ | .list _ | .object _ => isFalse nofun
  | .binary x, b =>
    match b with
    | .binary y => decidable_of_iff (x = y) ⟨congrArg _, Datum.binary.inj⟩
    | .null | .bool _ | .number _ | .string _ | .enum _ | .list _ | .object _ => isFalse nofun
  | .list x, b =>
    match b with
    | .list y =>
      match Datum.decEqItems x y with
      | isTrue same => isTrue (congrArg _ same)
      | isFalse other => isFalse fun same => other (Datum.list.inj same)
    | .null | .bool _ | .number _ | .string _ | .enum _ | .binary _ | .object _ => isFalse nofun
  | .object x, b =>
    match b with
    | .object y =>
      match Datum.decEqMembers x y with
      | isTrue same => isTrue (congrArg _ same)
      | isFalse other => isFalse fun same => other (Datum.object.inj same)
    | .null | .bool _ | .number _ | .string _ | .enum _ | .binary _ | .list _ => isFalse nofun

def Datum.decEqItems : (as bs : List Datum) → Decidable (as = bs)
  | [], [] => isTrue rfl
  | [], _ :: _ | _ :: _, [] => isFalse nofun
  | a :: as, b :: bs =>
    match Datum.decEq a b, Datum.decEqItems as bs with
    | isTrue first, isTrue rest => isTrue (first ▸ rest ▸ rfl)
    | isFalse other, _ => isFalse fun same => other (List.cons.inj same).1
    | isTrue _, isFalse other => isFalse fun same => other (List.cons.inj same).2

def Datum.decEqMembers : (as bs : List (String × Datum)) → Decidable (as = bs)
  | [], [] => isTrue rfl
  | [], _ :: _ | _ :: _, [] => isFalse nofun
  | (n, a) :: as, (m, b) :: bs =>
    match instDecidableEqString n m, Datum.decEq a b, Datum.decEqMembers as bs with
    | isTrue name, isTrue first, isTrue rest => isTrue (name ▸ first ▸ rest ▸ rfl)
    | isFalse other, _, _ => isFalse fun same => other (Prod.mk.inj (List.cons.inj same).1).1
    | isTrue _, isFalse other, _ => isFalse fun same => other (Prod.mk.inj (List.cons.inj same).1).2
    | isTrue _, isTrue _, isFalse other => isFalse fun same => other (List.cons.inj same).2

end

instance : DecidableEq Datum := Datum.decEq

deriving instance DecidableEq for DirectiveUse
deriving instance DecidableEq for InputDef
deriving instance DecidableEq for FieldDef
deriving instance DecidableEq for TypeBody
deriving instance DecidableEq for TypeDef
deriving instance DecidableEq for RootsDef
deriving instance DecidableEq for Definition

end RowGraph
