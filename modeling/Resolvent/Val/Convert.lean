import Resolvent.Failure
import Resolvent.Text.Classes

/-!
# Making values of a type

A type has a zero value, and converts other values to itself: numbers by truncation or from text,
text by printing, lists item by item.
-/

namespace Resolvent.Val

/-- The zero value of a type, if it has one. -/
def zero? (t : Ty) : Option Val :=
  if t.isOpt || t.isAny then some null
  else if t.kind.bare = .bool then some (bool false)
  else if t.kind.bare = .real then some (real 0.0)
  else if t.kind.isNum then some (int 0)
  else if t.kind.isChar then some (str "")
  else if t.kind.isKeyr then some (dict [])
  else if t.kind.isIdxr then some (list [])
  else if t.kind.bare = .typ then some (typ .void)
  else none

/-- A real from a number or from text. -/
def toReal? : Val → Option Float
  | str s => Real.ofText? (Text.trim s.toList)
  | v => v.number?

/-- An integer from a number, a truth value or text. -/
def toInt? : Val → Option Int64
  | int n => some n
  | real x => some (Real.truncate x)
  | bool b => some (if b then 1 else 0)
  | str s => Text.integer64? (Text.trim s.toList)
  | _ => none

mutual

/-- Converts a value to a type. -/
def convert (t : Ty) (v : Val) : Except EvalCause Val :=
  let fail : Except EvalCause Val := .error (.notConvertible v t)
  let orFail (w : Option Val) : Except EvalCause Val := w.elim fail .ok
  if t.isAny || (t.isOpt && v matches null) then .ok v
  else if t.kind.bare = .bool then .ok (bool !v.isZero)
  else if t.kind.bare = .real then orFail (v.toReal?.map real)
  else if t.kind.isNum then orFail (v.toInt?.map int)
  else if t.kind.isChar then .ok (str v.plainText)
  else if t.kind.bare = .typ then .ok (typ v.typeOf)
  else if t.kind.isKeyr then
    match v with
    | dict _ => .ok v
    | _ => fail
  else if t.kind.isIdxr then
    match v with
    | list items =>
      match t.elem? with
      | some elem => do return list (← convertAll elem items)
      | none => .ok v
    | _ => fail
  else fail
termination_by structural v

/-- Converts each value to a type, up to the first that cannot be converted. -/
def convertAll (t : Ty) : List Val → Except EvalCause (List Val)
  | [] => .ok []
  | v :: vs => do
    let w ← convert t v
    let ws ← convertAll t vs
    return w :: ws
termination_by structural vs => vs

end

/-- Makes a value of a type: its zero value from nothing, a conversion of one value, a list of
several. -/
def construct (t : Ty) : List Val → Except EvalCause Val
  | [] => (zero? t).elim (.error (.noZero t)) .ok
  | [v] => convert t v
  | vs =>
    if t.kind.bare = .list then do return list (← convertAll (t.elem?.getD .any) vs)
    else .error (.tooManyArguments t)

end Resolvent.Val
