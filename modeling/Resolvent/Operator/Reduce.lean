import Resolvent.Val.Convert

/-!
# Reductions

What the operators on plain arguments make of the values of these arguments.
-/

namespace Resolvent.Reduce

/-- The sum of two numbers: exact for integers, otherwise of doubles. -/
def plus (a b : Val) : Except EvalCause Val :=
  match a, b with
  | .int m, .int n =>
    let sum := m.toInt + n.toInt
    if Int64.minValue.toInt ≤ sum ∧ sum ≤ Int64.maxValue.toInt then .ok (.int (Int64.ofInt sum))
      else .error .overflow
  | a, b =>
    match a.number?, b.number? with
    | some x, some y => .ok (.real (x + y))
    | _, _ => .error (.noNumber b)

/-- The sum of numbers, from the left. -/
def sum (vs : List Val) : Except EvalCause Val := vs.foldlM plus (.int 0)

/-- The texts of values after each other. -/
def concat (vs : List Val) : Except EvalCause Val := .ok (.str (String.join (vs.map Val.plainText)))

/-- Whether the first value is true. -/
def truth (vs : List Val) : Except EvalCause Val := .ok (.bool (vs.head?.any (!·.isZero)))

/-- Whether each value equals the next. -/
def allEqual : List Val → Bool
  | v :: w :: vs => v.equal w && allEqual (w :: vs)
  | _ => true

/-- Whether each value is less than the next. The first pair that decides ends the comparison. -/
def increasing : List Val → Except EvalCause Bool
  | v :: w :: vs =>
    match v.less? w with
    | some true => increasing (w :: vs)
    | some false => .ok false
    | none => .error (.incomparable v w)
  | _ => .ok true

def equality (vs : List Val) : Except EvalCause Val := .ok (.bool (allEqual vs))

def order (vs : List Val) : Except EvalCause Val := return .bool (← increasing vs)

/-- The items of a list, then further items. -/
def append (groups : List (List Val)) : Except EvalCause Val :=
  let rest := groups.tail.flatten
  match groups.head?.bind List.head? with
  | some (.list items) => .ok (.list (items ++ rest))
  | some v => .error (.noList v)
  | none => .ok (.list rest)

/-- Sets a key, in its place if it is there and at the end otherwise. -/
def setEntry (key : String) (v : Val) : List (String × Val) → List (String × Val)
  | [] => [(key, v)]
  | (k, w) :: rest => if k = key then (k, v) :: rest else (k, w) :: setEntry key v rest

/-- Sets all entries of a dict. -/
def mergeInto (acc : List (String × Val)) : Val → Except EvalCause (List (String × Val))
  | .dict entries => .ok (entries.foldl (fun acc (k, v) => setEntry k v acc) acc)
  | v => .error (.noDict v)

/-- The entries of all dicts; later ones win. -/
def merge (vs : List Val) : Except EvalCause Val := return .dict (← vs.foldlM mergeInto [])

/-- A value of the type that comes first, made from the values of the other groups. -/
def construct (groups : List (List Val)) : Except EvalCause Val :=
  match groups.head?.bind List.head? with
  | some (.typ t) => Val.construct t groups.tail.flatten
  | _ => .error .noType

end Resolvent.Reduce
