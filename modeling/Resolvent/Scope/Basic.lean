import Resolvent.Failure

/-!
# Scopes

A scope is a stack of frames, the innermost first. Plain names are looked up outward until some
frame knows them. A name with a sigil is answered by the nearest frame that supports the sigil,
whether it finds the name or not.
-/

namespace Resolvent

/-- Named operators and types. Later entries of one name replace earlier ones. -/
structure Catalog where
  callables : List (String × Callable) := []
  schemas : List (String × Ty) := []
  /-- The next stamp that no callable carries. -/
  nextStamp : Nat := 0
  deriving Inhabited

namespace Catalog

def callable? (c : Catalog) (name : String) : Option Callable :=
  (c.callables.find? fun (n, _) => n == name).map (·.2)

def schema? (c : Catalog) (name : String) : Option Ty :=
  (c.schemas.find? fun (n, _) => n == name).map (·.2)

/-- Adds an operator under the name of its signature. -/
def add (c : Catalog) (sig : Ty) (op : Operator) : Catalog :=
  { c with
    callables := (sig.name, ⟨sig, op, c.nextStamp⟩) :: c.callables
    nextStamp := c.nextStamp + 1 }

def addSchema (c : Catalog) (name : String) (t : Ty) : Catalog :=
  { c with schemas := (name, t) :: c.schemas }

/-- The catalog of the builtin operators. -/
def builtins : Catalog := Builtin.all.foldl (fun c b => c.add b.signature (.builtin b)) {}

/-- What a name stands for here: a type after a tilde, otherwise an operator. -/
def get? (c : Catalog) (name : String) : Option Definition :=
  match name.toList with
  | '~' :: rest => (c.schema? (String.ofList rest)).map fun t => .ofVal (.typ t)
  | _ => (c.callable? name).map .ofCallable

end Catalog

inductive Frame where
  | catalog (c : Catalog)
  /-- Local names. -/
  | locals (defs : List (String × Definition))
  /-- Function parameters, found by name or by position counted from one. -/
  | params (defs : List (String × Definition))
  /-- A value addressed by paths. Only root data answers absolute paths. -/
  | data (root : Bool) (v : Val)

namespace Frame

/-- The definition under a name. -/
def named? (defs : List (String × Definition)) (name : String) : Option Definition :=
  (defs.find? fun (n, _) => n == name).map (·.2)

/-- The keys of a path: what stands between the dots. -/
def pathKeys (path : List Char) : List String :=
  ((path.splitOnP (· == '.')).filter (!·.isEmpty)).map String.ofList

/-- What a name stands for in this frame alone. -/
def get? (f : Frame) (name : String) : Option Definition :=
  match f with
  | catalog c => c.get? name
  | locals defs => named? defs name
  | params defs =>
    let key := match name.toList with
      | '$' :: rest => rest
      | cs => cs
    match Text.natural64? key with
    | some 0 => none
    | some (i + 1) => (defs[i]?).map (·.2)
    | none => named? defs (String.ofList key)
  | data root v =>
    let path := match Sigil.of? name with
      | some .relPath => some name.toList.tail
      | some .absPath => if root then some name.toList.tail else none
      | _ => none
    (path.bind fun p => v.path? (pathKeys p)).map .ofVal

/-- Whether the frame answers for names with a sigil. -/
def supports : Frame → Sigil → Bool
  | catalog _, .schema => true
  | params _, .param => true
  | data _ _, .relPath => true
  | data root _, .absPath => root
  | _, _ => false

/-- Local names with one more at the end, unless it is taken. -/
def define (defs : List (String × Definition)) (name : String) (d : Definition) :
    Except Failure (List (String × Definition)) :=
  if defs.any fun (n, _) => n == name then .error (.redefined name) else .ok (defs ++ [(name, d)])

end Frame

abbrev Scope := List Frame

namespace Scope

/-- What a name stands for; nothing if it is not defined. -/
def lookup (scope : Scope) (name : String) : Except Failure (Option Definition) :=
  match Sigil.of? name with
  | some sigil =>
    match scope.find? (·.supports sigil) with
    | some frame => .ok (frame.get? name)
    | none => .error (.unsupported name sigil)
  | none => .ok (scope.findSome? (·.get? name))

end Scope

end Resolvent
