import Resolvent.Kind
import Resolvent.Text.Case

/-!
# Types

A type is a kind, and for most kinds of several parts also a name, parameters and constants. What
the parameters are is up to the kind: fields of objects, parameters and result of specs, the element
of a container, the constraints of a variable, the candidates of an alternative.
-/

namespace Resolvent

inductive Ty where
  | plain (kind : Kind)
  | detailed (kind : Kind) (name : String) (params : List (String × Ty))
      (consts : List (String × Int64))
  deriving Inhabited

/-- A type with the name under which it is a part; the name may be empty. -/
abbrev Param := String × Ty

namespace Param

/-- A name without its optional mark. -/
def stem (name : String) : String :=
  let cs := name.toList
  if cs.getLast? = some '?' then String.ofList cs.dropLast else name

/-- The key of a name: its stem in lower case. -/
def key (name : String) : String := Text.lower (stem name)

/-- A name with an optional mark. -/
def isOpt (name : String) : Bool := name.toList.getLast? == some '?'

end Param

namespace Ty

def kind : Ty → Kind
  | plain k => k
  | detailed k _ _ _ => k

def setKind (t : Ty) (k : Kind) : Ty :=
  match t with
  | plain _ => plain k
  | detailed _ name params consts => detailed k name params consts

def params : Ty → List Param
  | plain _ => []
  | detailed _ _ ps _ => ps

def consts : Ty → List (String × Int64)
  | plain _ => []
  | detailed _ _ _ cs => cs

/-- The name of a reference or the declared name, empty if there is none. -/
def name : Ty → String
  | plain _ => ""
  | detailed _ n _ _ => n

def isDetailed : Ty → Bool
  | plain _ => false
  | detailed _ _ _ _ => true

mutual

/-- The number of types that a type is made of, itself included. -/
def size : Ty → Nat
  | plain _ => 1
  | detailed _ _ ps _ => 1 + sizeParams ps

def sizeParams : List (String × Ty) → Nat
  | [] => 0
  | (_, t) :: ps => t.size + sizeParams ps

end

mutual

/-- The number of types one inside the other. The constraints of a variable do not count. -/
def height : Ty → Nat
  | plain _ => 1
  | detailed k _ ps _ => if k.isVar then 1 else 1 + heightParams ps

def heightParams : List (String × Ty) → Nat
  | [] => 0
  | (_, t) :: ps => max t.height (heightParams ps)

end

def void : Ty := plain .void
def any : Ty := plain .any
def typ : Ty := plain .typ
def bool : Ty := plain .bool
def num : Ty := plain .num
def int : Ty := plain .int
def real : Ty := plain .real
def char : Ty := plain .char
def str : Ty := plain .str

/-- A container of the kind around an element type. -/
def around (k : Kind) (elem : Ty) : Ty := detailed (k.around elem.kind) "" [("", elem)] []

def list (elem : Ty) : Ty := around .list elem
def dict (elem : Ty) : Ty := around .dict elem
def idxr (elem : Ty) : Ty := around .idxr elem
def keyr (elem : Ty) : Ty := around .keyr elem

def obj (name : String) (fields : List Param) : Ty := detailed .obj name fields []

/-- A form: its parameters, then its result without a name. -/
def form (name : String) (params : List Param) : Ty := detailed .form name params []

/-- A function: its parameters, then its result without a name. -/
def func (name : String) (params : List Param) : Ty := detailed .func name params []

def flags (name : String) (consts : List (String × Int64)) : Ty := detailed .flags name [] consts

def enum (name : String) (consts : List (String × Int64)) : Ty := detailed .enum name [] consts

/-- A type variable that stands for types compatible with one of its constraints, if it has any. -/
def var (id : Nat) (constraints : List Ty) : Ty :=
  let k := Kind.var.withSlot id
  if constraints.isEmpty then plain k else detailed k "" (constraints.map fun c => ("", c)) []

def ref (name : String) : Ty := detailed .ref name [] []

def sch (name : String) : Ty := detailed .sch name [] []

/-- A reference to the type that encloses it `dist` levels up. -/
def self (dist : Nat) : Ty := plain (Kind.self.withSlot dist)

def opt (t : Ty) : Ty := t.setKind t.kind.opt

def deopt (t : Ty) : Ty := t.setKind t.kind.deopt

/-- Makes the type optional if asked to, and otherwise leaves it. -/
def optIf (t : Ty) (optional : Bool) : Ty := if optional then t.opt else t

def isOpt (t : Ty) : Bool := t.kind.optional

def isVoid (t : Ty) : Bool := t.kind.isVoid

def isAny (t : Ty) : Bool := t.kind.isAny

/-- The element type of a container of equal elements. -/
def elem? (t : Ty) : Option Ty := if t.kind.isElemCont then t.params.head?.map (·.2) else none

def varId? (t : Ty) : Option Nat := if t.kind.isVar then some t.kind.slot else none

/-- The constraints of a variable, the candidates of an alternative. -/
def members (t : Ty) : List Ty := if t.kind.isVar || t.kind.isAlt then t.params.map (·.2) else []

/-- The first parameter with the key of the given name. -/
def field? (t : Ty) (name : String) : Option Param :=
  let key := Param.key name
  t.params.find? fun (n, _) => Param.key n == key

/-- The result of a spec: its last parameter. -/
def result (t : Ty) : Ty := (t.params.getLast?.map (·.2)).getD void

/-- The parameters of a spec before its result. -/
def args (t : Ty) : List Param := t.params.dropLast

/-- The type with other parameters; a container gets the depth that its element calls for. -/
def withParams (t : Ty) (ps : List Param) : Ty :=
  match t, ps with
  | detailed k name (_ :: _) consts, (n, p) :: ps =>
    detailed (if k.isElemCont then k.around p.kind else k) name ((n, p) :: ps) consts
  | t, _ => t

@[simp] theorem kind_setKind (t : Ty) (k : Kind) : (t.setKind k).kind = k := by
  cases t <;> rfl

@[simp] theorem params_setKind (t : Ty) (k : Kind) : (t.setKind k).params = t.params := by
  cases t <;> rfl

end Ty

end Resolvent
