import Resolvent.Ty.Equality

/-!
# How types fit

Comparing a source with a destination type tells how far values of the one can be used where the
other is expected. The result has a level, from not at all to the same type, and classes that say
what the step is: wrapping, widening, looking at elements and so on.
-/

namespace Resolvent

/-- How a source type relates to a destination: the level in the upper byte, the classes in the
lower. -/
structure Fit where
  bits : UInt16
  deriving DecidableEq, Repr

namespace Fit

def wrapBit : UInt16 := 0x01
def unwrapBit : UInt16 := 0x02
def anyBit : UInt16 := 0x04
def widenBit : UInt16 := 0x08
def narrowBit : UInt16 := 0x10
def elemBit : UInt16 := 0x20
def siblingBit : UInt16 := 0x40

def noneLevel : UInt16 := 0
def refLevel : UInt16 := 1
def checkLevel : UInt16 := 2
def convLevel : UInt16 := 3
def equalLevel : UInt16 := 4
def sameLevel : UInt16 := 5

def of (level classes : UInt16) : Fit := ⟨level <<< 8 ||| classes⟩

def none : Fit := ⟨0⟩
def ref : Fit := of refLevel 0
def checkAny : Fit := of checkLevel anyBit
def checkElem : Fit := of checkLevel elemBit
def narrow : Fit := of checkLevel narrowBit
def convAny : Fit := of convLevel anyBit
def convSibling : Fit := of convLevel siblingBit
def equal : Fit := of equalLevel 0
def widen : Fit := of equalLevel widenBit
def same : Fit := of sameLevel 0

def level (f : Fit) : UInt16 := f.bits >>> 8

def classes (f : Fit) : UInt16 := f.bits &&& 0xff

/-- Whether all the given bits are set. -/
def has (f : Fit) (bits : UInt16) : Bool := f.bits &&& bits == bits

/-- Adds classes, unless the types do not fit at all. -/
def adding (f : Fit) (bits : UInt16) : Fit := if f.level == noneLevel then f else ⟨f.bits ||| bits⟩

/-- Values can be used where the destination is expected, possibly after a check. -/
def isCompatible (f : Fit) : Bool := f.level ≥ checkLevel

/-- The weaker of two results, with the classes of both. -/
def weaker (f g : Fit) : Fit :=
  if f.level == noneLevel || g.level == noneLevel then none
  else of (min f.level g.level) (f.classes ||| g.classes)

/-- Lowers the level to a bound. -/
def cap (f : Fit) (level : UInt16) : Fit := if f.level ≤ level then f else of level f.classes

def levelName (f : Fit) : String :=
  if f.level == noneLevel then "none"
  else if f.level == refLevel then "ref"
  else if f.level == checkLevel then "check"
  else if f.level == convLevel then "conv"
  else if f.level == equalLevel then "equal"
  else "same"

def classNames : List (UInt16 × String) :=
  [(wrapBit, "wrap"), (unwrapBit, "unwrap"), (anyBit, "any"), (widenBit, "widen"),
    (narrowBit, "narrow"),
   (elemBit, "elem"), (siblingBit, "sibl")]

/-- The level, then each class after a bar. -/
def text (f : Fit) : String :=
  f.levelName ++ String.join ((classNames.filter fun (b, _) => f.bits &&& b != 0).map
    fun (_, n) => "|" ++ n)

def debugText (f : Fit) : String := "Cmp(" ++ f.text ++ ")"

end Fit

namespace Ty

/-- Primitive types and specs, by their family bits. -/
def fitKinds (src dst : Ty) : Fit :=
  let s := src.kind.family
  let d := dst.kind.family
  if s == d then
    match src.isDetailed, dst.isDetailed with
    | true, false => .widen
    | false, true => .narrow
    | _, _ => if src.kind.isSpec then .none else .convSibling
  else
    let common := s &&& d
    if common == s then .narrow
    else if common == d then .widen
    else if common &&& (Kind.numMask ||| Kind.charMask) != 0 then .convSibling
    else .none

/-- How two container kinds relate, whatever they hold; nothing if they have no access in common. -/
def fitContKinds (src dst : Kind) : Option Fit :=
  let s := src.family
  let d := dst.family
  let common := s &&& d
  if common == 0 then none
  else if s == d then some .same
  else if common == d then some .widen
  else if common == s then some .narrow
  else some .checkElem

/-- Takes the fields of the destination one by one, counting those found in the source. -/
def fitFields (fit : Ty → Ty → Fit) (src : Ty) : List Param → Fit → (found : Nat) → Fit × Nat
  | [], acc, found => (acc, found)
  | (n, t) :: rest, acc, found =>
    let step : Option (Fit × Nat) := match src.field? (Param.key n) with
      | some (_, p) =>
        let f := fit p t
        some (if f.level == Fit.sameLevel then acc else acc.weaker (f.adding Fit.elemBit),
        found + 1)
      | none => if Param.isOpt n then some (acc.weaker (Fit.equal.adding Fit.elemBit), found)
          else none
    match step with
    | some (acc, found) => if acc.level == Fit.noneLevel then (.none, found)
        else fitFields fit src rest acc found
    | none => (.none, found)

/-- Objects, by field whatever the order. A destination field must be found unless it is optional,
and fields beyond those found make the source wider. -/
def fitObjects (fit : Ty → Ty → Fit) (src dst : Ty) : Fit :=
  match src.isDetailed, dst.isDetailed with
  | false, _ => .checkElem
  | true, false => .widen
  | true, true =>
    let start := if src.name = dst.name then Fit.same else Fit.equal
    let (acc, found) := fitFields fit src dst.params start 0
    if acc.level == Fit.noneLevel then .none
    else if src.params.length > found then acc.weaker (Fit.widen.adding Fit.elemBit)
    else acc

/-- Containers: the kinds, then what they hold. -/
def fitContainers (fit : Ty → Ty → Fit) (src dst : Ty) : Fit :=
  match fitContKinds src.kind dst.kind with
  | none => .none
  | some kinds =>
    if src.kind.isObj && dst.kind.isObj then fitObjects fit src dst
    else if dst.kind.isObj then kinds.weaker .checkElem
    else if src.kind.isObj then
      match dst.elem? with
      | none => kinds
      | some elem => src.params.foldl (fun acc (_, t) =>
        acc.weaker ((fit t elem).adding Fit.elemBit)) kinds
    else
      match src.elem?, dst.elem? with
      | some s, some d =>
        let f := fit s d
        if f.level == Fit.sameLevel then kinds else kinds.weaker (f.adding Fit.elemBit)
      | none, some _ => kinds.weaker .checkElem
      | some _, none => kinds.weaker (Fit.widen.adding Fit.elemBit)
      | none, none => kinds

/-- Compares without regard to the optional flags, with `fit` for the parts. -/
def fitPlain (fit : Ty → Ty → Fit) (src dst : Ty) : Fit :=
  if equal src dst then .same
  else if src.kind.isCtx || dst.kind.isCtx then .ref
  else if dst.isAny then .convAny
  else if src.isAny then .checkAny
  else if src.isVoid || dst.isVoid then .none
  else if src.kind.isCont && dst.kind.isCont then fitContainers fit src dst
  else fitKinds src dst

/-- Compares with `fit` for the parts: an optional destination wraps, an optional source must be
unwrapped. -/
def fitWith (fit : Ty → Ty → Fit) (src dst : Ty) : Fit :=
  let f := fitPlain fit src.deopt dst.deopt
  if !f.isCompatible || src.isAny || dst.isAny then f
  else match src.isOpt, dst.isOpt with
    | false, true => (f.adding Fit.wrapBit).cap Fit.equalLevel
    | true, false => (f.adding Fit.unwrapBit).cap Fit.checkLevel
    | _, _ => f

/-- Compares types whose source nests less deep than the fuel. -/
def fitN : (fuel : Nat) → Ty → Ty → Fit
  | 0 => fun _ _ => .none
  | fuel + 1 => fitWith (fitN fuel)

/-- How values of `src` relate to the type `dst`. -/
def fit (src dst : Ty) : Fit := fitN src.size src dst

end Ty

end Resolvent
