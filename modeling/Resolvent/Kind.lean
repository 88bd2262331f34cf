/-!
# Kinds

A kind is the compact classification of a type. Its bits spell a family: a specific kind carries the
bits of every more general kind it belongs to, so the most specific common kind of two kinds is the
intersection of their bits. Beside the bits there is an optional flag and a slot, which holds the
nesting depth of containers, the number of a type variable, or the distance of a self reference.
-/

namespace Resolvent

structure Kind where
  /-- Family bits, and the mark of kinds that only have a meaning in a context. The lowest bit stays
  free. -/
  bits : UInt32
  optional : Bool := false
  slot : Nat := 0
  deriving DecidableEq, Repr, Inhabited

namespace Kind

/-- The mark of variables, references, schemas, alternatives and self references. -/
def ctxMask : UInt32 := 0x2

def numMask : UInt32 := 0x4
def charMask : UInt32 := 0x8
def idxrMask : UInt32 := 0x10
def keyrMask : UInt32 := 0x20
def intMask : UInt32 := 0x40
def realMask : UInt32 := 0x80
def bitsMask : UInt32 := 0x100
def spanMask : UInt32 := 0x200
def strMask : UInt32 := 0x400
def rawMask : UInt32 := 0x800
def uuidMask : UInt32 := 0x1000
def timeMask : UInt32 := 0x2000
def enumMask : UInt32 := 0x4000
def boolMask : UInt32 := 0x8000
def typMask : UInt32 := 0x10000
def specMask : UInt32 := 0x20000
def formMask : UInt32 := 0x40000
def funcMask : UInt32 := 0x80000
def listMask : UInt32 := 0x100000
def dictMask : UInt32 := 0x200000
def objMask : UInt32 := 0x400000
def varMask : UInt32 := 0x800000
def refMask : UInt32 := 0x1000000
def schMask : UInt32 := 0x2000000
def altMask : UInt32 := 0x4000000
def selfMask : UInt32 := 0x8000000
def anyMask : UInt32 := 0x10000000

def void : Kind := ⟨0, false, 0⟩
def any : Kind := ⟨anyMask, false, 0⟩
def typ : Kind := ⟨typMask, false, 0⟩
def bool : Kind := ⟨boolMask, false, 0⟩

def num : Kind := ⟨numMask, false, 0⟩
def int : Kind := ⟨numMask ||| intMask, false, 0⟩
def real : Kind := ⟨numMask ||| realMask, false, 0⟩
def flags : Kind := ⟨numMask ||| intMask ||| bitsMask, false, 0⟩
def span : Kind := ⟨numMask ||| intMask ||| spanMask, false, 0⟩

def char : Kind := ⟨charMask, false, 0⟩
def str : Kind := ⟨charMask ||| strMask, false, 0⟩
def raw : Kind := ⟨charMask ||| rawMask, false, 0⟩
def uuid : Kind := ⟨charMask ||| uuidMask, false, 0⟩
def time : Kind := ⟨charMask ||| timeMask, false, 0⟩
def enum : Kind := ⟨charMask ||| strMask ||| enumMask, false, 0⟩

def idxr : Kind := ⟨idxrMask, false, 0⟩
def keyr : Kind := ⟨keyrMask, false, 0⟩
def list : Kind := ⟨idxrMask ||| listMask, false, 0⟩
def dict : Kind := ⟨keyrMask ||| dictMask, false, 0⟩
def obj : Kind := ⟨idxrMask ||| keyrMask ||| objMask, false, 0⟩

def form : Kind := ⟨specMask ||| formMask, false, 0⟩
def func : Kind := ⟨specMask ||| funcMask, false, 0⟩

def var : Kind := ⟨ctxMask ||| varMask, false, 0⟩
def ref : Kind := ⟨ctxMask ||| refMask, false, 0⟩
def sch : Kind := ⟨ctxMask ||| schMask, false, 0⟩
def alt : Kind := ⟨ctxMask ||| altMask, false, 0⟩
def self : Kind := ⟨ctxMask ||| selfMask, false, 0⟩

/-- The kinds that can be written by name. -/
def named : List (String × Kind) :=
  [("void", void), ("any", any), ("typ", typ), ("bool", bool), ("num", num), ("int", int),
    ("real", real),
   ("bits", flags), ("span", span), ("char", char), ("str", str), ("raw", raw), ("uuid", uuid),
   ("time", time),
   ("enum", enum), ("idxr", idxr), ("keyr", keyr), ("list", list), ("dict", dict), ("obj", obj),
   ("form", form), ("func", func), ("alt", alt)]

/-- The kinds that are written by a mark instead of a name. -/
def marked : List (String × Kind) := [("var", var), ("ref", ref), ("sch", sch), ("self", self)]

/-- The deepest nesting of containers that the notation admits. -/
def maxDepth : Nat := 7

/-- The largest slot. -/
def maxSlot : Nat := UInt32.size - 1

/-- The kind without optional flag and slot. -/
def bare (k : Kind) : Kind := ⟨k.bits, false, 0⟩

/-- Family bits without the context mark. -/
def family (k : Kind) : UInt32 := k.bits &&& ~~~ctxMask

def withSlot (k : Kind) (slot : Nat) : Kind := { k with slot }

def withOptional (k : Kind) (optional : Bool) : Kind := { k with optional }

def opt (k : Kind) : Kind := k.withOptional true

def deopt (k : Kind) : Kind := k.withOptional false

/-- Whether the kind shares a bit with a mask. -/
def meets (k : Kind) (mask : UInt32) : Bool := k.bits &&& mask != 0

def isVoid (k : Kind) : Bool := k.bits == void.bits

def isAny (k : Kind) : Bool := k.bits == any.bits

/-- Variables, references, schemas, alternatives and self references. -/
def isCtx (k : Kind) : Bool := k.meets ctxMask

def isVar (k : Kind) : Bool := k.bits == var.bits

def isRef (k : Kind) : Bool := k.bits == ref.bits

def isSch (k : Kind) : Bool := k.bits == sch.bits

def isAlt (k : Kind) : Bool := k.bits == alt.bits

def isSelf (k : Kind) : Bool := k.bits == self.bits

def isNum (k : Kind) : Bool := k.meets numMask

def isChar (k : Kind) : Bool := k.meets charMask

def isIdxr (k : Kind) : Bool := k.meets idxrMask

def isKeyr (k : Kind) : Bool := k.meets keyrMask

/-- Containers, accessed by index or by key. -/
def isCont (k : Kind) : Bool := k.meets (idxrMask ||| keyrMask)

def isObj (k : Kind) : Bool := k.meets objMask

/-- Containers whose elements all have one type. -/
def isElemCont (k : Kind) : Bool := k.isCont && !k.isObj

def isSpec (k : Kind) : Bool := k.meets specMask

def isPrim (k : Kind) : Bool := k.meets (numMask ||| charMask ||| boolMask)

/-- Kinds that are written as a parenthesized list of members. -/
def isComposite (k : Kind) : Bool :=
  k.meets (objMask ||| specMask ||| bitsMask ||| enumMask) || k.isAlt

/-- The nesting depth of containers. -/
def depth (k : Kind) : Nat := if k.isElemCont then k.slot else 0

/-- The kind of a container around an element of the given kind: one deeper, up to the largest slot.
-/
def around (k : Kind) (elem : Kind) : Kind := k.withSlot (min (elem.depth + 1) maxSlot)

/-- Whether the bits spell a kind that has a name or a mark. -/
def isKnown (k : Kind) : Bool := (named ++ marked).any fun (_, j) => j.bits == k.bits

/-- The next more general kind of the primitive and container kinds. -/
def parent (k : Kind) : Option Kind :=
  let among (ks : List Kind) : Bool := ks.any fun j => j.bits == k.bits
  if among [int, real] then some num
  else if among [flags, span] then some int
  else if among [str, raw, uuid, time] then some char
  else if among [enum] then some str
  else if among [list] then some idxr
  else if among [dict] then some keyr
  else if among [num, char, idxr, keyr, bool, typ] then some any
  else none

/-- The name of a kind, whatever its flag and slot. -/
def name? (k : Kind) : Option String := (named.find? fun (_, j) => j.bits == k.bits).map (·.1)

def ofName? (name : String) : Option Kind := (named.find? fun (n, _) => n == name).map (·.2)

/-- The name or the mark's name, then a question mark if optional. -/
def text (k : Kind) : String :=
  let name := ((marked ++ named).find? fun (_, j) => j.bits == k.bits).map (·.1)
  name.getD "?" ++ (if k.optional then "?" else "")

/-- The text with a slot that is not zero. -/
def debugText (k : Kind) : String :=
  "Kind(" ++ k.text ++ (if k.slot != 0 then ";" ++ Nat.repr k.slot else "") ++ ")"

/-- The kind as one word: the slot in the upper half, the bits and the flag in the lower. -/
def toWord (k : Kind) : UInt64 :=
  UInt64.ofNat (k.slot * UInt32.size + (k.bits.toNat + if k.optional then 1 else 0))

def ofWord (w : UInt64) : Kind :=
  ⟨w.toUInt32 &&& ~~~1, w &&& 1 == 1, w.toNat / UInt32.size⟩

/-- What two kinds have in common, bit by bit. -/
def inter (j k : Kind) : Kind := ofWord (j.toWord &&& k.toWord)

end Kind

end Resolvent
