import Resolvent.Builtin
import Resolvent.Real.Parts
import Resolvent.Span
import Resolvent.Subst.Unify

/-!
# Values, elements and definitions

Values are literals, containers, types and functions. A function value holds the elements of its
body, elements hold values and the definitions of names, and definitions hold values again, so all
of these are declared together.

Elements refer to each other by their numbers in a store. Functions carry a stamp that tells their
creations apart: two function values are equal only if they come from one creation.
-/

namespace Resolvent

mutual

inductive Val where
  | null
  | bool (b : Bool)
  | int (n : Int64)
  | real (x : Float)
  | str (s : String)
  | list (items : List Val)
  /-- Keys and values in the order of insertion. -/
  | dict (entries : List (String × Val))
  | typ (t : Ty)
  | fn (f : Callable)

/-- An operator under a signature. The two are independent: nothing keeps an operator from being
declared under a signature that it was not written for. -/
structure Callable where
  sig : Ty
  op : Operator
  stamp : Nat

/-- What a callable does. -/
inductive Operator where
  | builtin (b : Builtin)
  /-- A function literal: the names of its parameters, its body as elements of its own with the
  roots to evaluate, the substitution they were resolved under, and the definitions it keeps from
  the place of its creation. -/
  | closure (names : List String) (body : Array Element) (roots : List Nat) (subst : Subst)
      (captured : List (String × Definition))
  /-- The call of a function that is only known while evaluating; the first argument is the
  function. -/
  | apply
  /-- Stands for the operators that a user of the library declares besides the builtin ones: gives
  back its arguments, one list for each parameter. -/
  | collect

/-- What a name stands for. -/
structure Definition where
  typ : Ty
  val : Option Val
  callable : Option Callable
  /-- Declared, but not resolved yet: look-ups stay unresolved until a later pass. -/
  pending : Bool

structure Element where
  content : Content
  span : Span

inductive Content where
  | literal (v : Val)
  /-- A name, with its definition once it has been looked up. -/
  | name (name : String) (definition : Option Definition)
  /-- A tag, with the element it marks if there is one. -/
  | tag (name : String) (el : Option Nat)
  /-- A declaration with its arguments. The naked marker has an empty name and no arguments. -/
  | decl (name : String) (args : List Nat)
  /-- An expression whose operator is not known yet. -/
  | expr (items : List Nat)
  | call (c : Call)

/-- An operator with its arguments grouped by parameter. -/
structure Call where
  callable : Callable
  groups : List (List Nat)
  /-- The signature with variables of its own, once the call has been visited. -/
  sig : Option Ty

end

namespace Callable

/-- The name in the signature, empty for function literals. -/
def name (c : Callable) : String := c.sig.name

def params (c : Callable) : List Param := c.sig.args

end Callable

namespace Call

/-- The signature of this call. -/
def typ (c : Call) : Ty := c.sig.getD c.callable.sig

/-- The arguments for the parameter with the given index. -/
def group (c : Call) (i : Nat) : List Nat := c.groups.getD i []

/-- The first argument for the parameter with the given index. -/
def arg? (c : Call) (i : Nat) : Option Nat := (c.group i).head?

end Call

namespace Val

/-- The common type of some types, if there are any; types without one give `any`. -/
def commonType (ts : List Ty) : Option Ty :=
  if ts.isEmpty then none else (Solve.exec (Subst.choose (.alt ts)) {}).1.toOption

mutual

/-- The type of a value. A container has the common type of its items as its element. -/
def typeOf : Val → Ty
  | null => Ty.any.opt
  | bool _ => .bool
  | int _ => .int
  | real _ => .real
  | str _ => .str
  | list items => ((commonType (typesOf items)).map Ty.list).getD (.plain .list)
  | dict entries => ((commonType (entryTypes entries)).map Ty.dict).getD (.plain .dict)
  | typ _ => .typ
  | fn f => f.sig

def typesOf : List Val → List Ty
  | [] => []
  | v :: vs => v.typeOf :: typesOf vs

def entryTypes : List (String × Val) → List Ty
  | [] => []
  | (_, v) :: vs => v.typeOf :: entryTypes vs

end

/-- Zero values count as false: null, false, zero, empty text and containers, and the type `void`.
-/
def isZero : Val → Bool
  | null => true
  | bool b => !b
  | int n => n == 0
  | real x => x == 0.0
  | str s => s == ""
  | list items => items.isEmpty
  | dict entries => entries.isEmpty
  | typ t => t.isVoid
  | fn _ => false

/-- The value of a number. -/
def number? : Val → Option Float
  | int n => some (Real.ofInt64 n)
  | real x => some x
  | _ => none

/-- The item of a list at an index. -/
def item? (i : Nat) : Val → Option Val
  | list items => items[i]?
  | _ => none

/-- The first value of a dict under a key. -/
def field? (key : String) : Val → Option Val
  | dict entries => (entries.find? fun (k, _) => k == key).map (·.2)
  | _ => none

def length? : Val → Option Nat
  | str s => some s.length
  | list items => some items.length
  | dict entries => some entries.length
  | _ => none

/-- Walks a path of keys; in a list a numeral is an index. -/
def path? : List String → Val → Option Val
  | [], v => some v
  | k :: ks, v =>
    let next := match v, Text.natural64? k.toList with
      | list items, some i => items[i]?
      | v, _ => v.field? k
    next.bind (path? ks)

mutual

/-- Equality of values. Numbers are compared as doubles, dicts by key, functions by their creation.
-/
def equal : Val → Val → Bool
  | null, null => true
  | bool a, bool b => a == b
  | str a, str b => a == b
  | list xs, list ys => xs.length == ys.length && equalItems xs ys
  | dict xs, dict ys => xs.length == ys.length && equalEntries xs ys
  | typ a, typ b => Ty.equal a b
  | fn f, fn g => f.stamp == g.stamp
  | a, b =>
    match a.number?, b.number? with
    | some x, some y => x == y
    | _, _ => false

def equalItems : List Val → List Val → Bool
  | x :: xs, y :: ys => x.equal y && equalItems xs ys
  | _, _ => true

/-- Whether every entry is found in the other dict with an equal value. -/
def equalEntries : List (String × Val) → List (String × Val) → Bool
  | [], _ => true
  | (k, v) :: xs, ys =>
    (match (dict ys).field? k with
      | some w => v.equal w
      | none => false) && equalEntries xs ys

end

/-- The strict order of integers, texts, truth values and numbers; nothing for values that are not
ordered. -/
def less? : Val → Val → Option Bool
  | int a, int b => some (a < b)
  | str a, str b => some (a < b)
  | bool a, bool b => some (!a && b)
  | a, b =>
    match a.number?, b.number? with
    | some x, some y => some (x < y)
    | _, _ => none

end Val

namespace Definition

/-- A name of known type without a value. -/
def typed (t : Ty) : Definition := ⟨t, none, none, false⟩

/-- A declared name that is not resolved yet. -/
def waiting : Definition := ⟨.any, none, none, true⟩

def ofVal (v : Val) : Definition :=
  let callable := match v with
    | .fn f => some f
    | _ => none
  ⟨v.typeOf, some v, callable, false⟩

def ofCallable (c : Callable) : Definition := ⟨c.sig, none, some c, false⟩

/-- The value is known, as a literal or as a callable. -/
def isKnown (d : Definition) : Bool := d.val.isSome || d.callable.isSome

end Definition

end Resolvent
