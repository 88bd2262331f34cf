import Resolvent.Ty.Equality
import Resolvent.Text.Numeral

/-!
# Printing types

Every type has one written form: kinds by name or mark, containers with their element after a bar,
composite types in parentheses. Consecutive named parameters of equal type share one type.
-/

namespace Resolvent.Ty

/-- The optional mark. -/
def optMark (k : Kind) : String := if k.optional then "?" else ""

/-- The written form of constants. -/
def constsText (cs : List (String × Int64)) : String :=
  String.join (cs.map fun (n, v) => " +" ++ n ++ " " ++ Text.decimal v.toInt)

/-- Whether the parameter after one of type `t` is named and has an equal type. -/
def sharesNext (t : Ty) : List Param → Bool
  | (n, u) :: _ => n != "" && equal u t
  | [] => false

mutual

/-- The written form of a type. -/
def text : Ty → String
  | plain k =>
    if k.isVar then "'" ++ Nat.repr k.slot ++ optMark k
    else if k.isRef then "@" ++ optMark k
    else if k.isSch then "~" ++ optMark k
    else if k.isSelf then "@" ++ Nat.repr k.slot ++ optMark k
    else if k.isAlt then "(alt" ++ optMark k ++ ")"
    else k.text
  | detailed k name ps cs =>
    if k.isVar then
      if ps.isEmpty then "'" ++ Nat.repr k.slot ++ optMark k
      else "('" ++ Nat.repr k.slot ++ optMark k ++ membersText ps ++ ")"
    else if k.isRef then "@" ++ name ++ optMark k
    else if k.isSch then "~" ++ name ++ optMark k
    else if k.isSelf then "@" ++ Nat.repr k.slot ++ optMark k
    else if k.isAlt then "(alt" ++ optMark k ++ membersText ps ++ ")"
    else if k.isElemCont then k.text ++ elemText ps
    else if k.isComposite then
      "(" ++ k.text ++ (if name = "" then "" else " \"" ++ name ++ "\"") ++ constsText cs ++
      paramsText ps ++ ")"
    else k.text

/-- Types after each other, names left out. -/
def membersText : List (String × Ty) → String
  | [] => ""
  | (_, t) :: ps => " " ++ t.text ++ membersText ps

/-- The element after a bar. -/
def elemText : List (String × Ty) → String
  | [] => ""
  | (_, t) :: _ => "|" ++ t.text

/-- Parameters with their names. -/
def paramsText : List (String × Ty) → String
  | [] => ""
  | (n, t) :: ps =>
    if n = "" then " " ++ t.text ++ paramsText ps
    else " +" ++ n ++ (if sharesNext t ps then "" else " " ++ t.text) ++ paramsText ps

end

end Resolvent.Ty
