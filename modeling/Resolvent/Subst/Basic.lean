import Resolvent.Ty.Error

/-!
# Substitutions

A substitution binds numbered type variables to types and hands out fresh ones. Bindings may mention
further bound variables; `apply` follows them. No variable is bound to a type that leads back to it,
so every chain of bindings is shorter than the number of variables, and that number is the fuel for
following chains.
-/

namespace Resolvent

namespace Ty

mutual

/-- Replaces variables. The constraints of a variable that stays are left alone. -/
def substVars (σ : Nat → Option Ty) : Ty → Ty
  | plain k =>
    if k.isVar then
      match σ k.slot with
      | some t => t.optIf k.optional
      | none => plain k
    else plain k
  | detailed k name ps cs =>
    if k.isVar then
      match σ k.slot with
      | some t => t.optIf k.optional
      | none => detailed k name ps cs
    else (detailed k name ps cs).withParams (substParams σ ps)

def substParams (σ : Nat → Option Ty) : List (String × Ty) → List (String × Ty)
  | [] => []
  | (n, t) :: ps => (n, t.substVars σ) :: substParams σ ps

end

mutual

/-- Renumbers variables, also within constraints. -/
def renumber (σ : Nat → Option Nat) : Ty → Ty
  | plain k =>
    if k.isVar then
      match σ k.slot with
      | some id => (var id []).optIf k.optional
      | none => plain k
    else plain k
  | detailed k name ps cs =>
    let t := (detailed k name ps cs).withParams (renumberParams σ ps)
    if k.isVar then
      match σ k.slot with
      | some id => (var id t.members).optIf k.optional
      | none => t
    else t

def renumberParams (σ : Nat → Option Nat) : List (String × Ty) → List (String × Ty)
  | [] => []
  | (n, t) :: ps => (n, t.renumber σ) :: renumberParams σ ps

end

mutual

/-- Gathers what `visit` yields at each variable; the flag tells whether to look into the
constraints too. -/
def gather (visit : Nat → List Nat × Bool) : Ty → List Nat
  | plain k => if k.isVar then (visit k.slot).1 else []
  | detailed k _ ps _ =>
    if k.isVar then
      match visit k.slot with
      | (ids, true) => ids ++ gatherParams visit ps
      | (ids, false) => ids
    else gatherParams visit ps

def gatherParams (visit : Nat → List Nat × Bool) : List (String × Ty) → List Nat
  | [] => []
  | (_, t) :: ps => t.gather visit ++ gatherParams visit ps

end

/-- The variables that occur in a type. -/
def vars (t : Ty) : List Nat := t.gather fun id => ([id], true)

end Ty

/-- Adds a number to an increasing list unless it is there. -/
def insertId (n : Nat) : List Nat → List Nat
  | [] => [n]
  | m :: ms => if n < m then n :: m :: ms else if n = m then m :: ms else m :: insertId n ms

/-- The numbers of a list in increasing order, each once. -/
def sortIds (ids : List Nat) : List Nat := ids.foldr insertId []

structure Subst where
  /-- How many variables there are; they are numbered from one. -/
  size : Nat := 0
  bindings : List (Nat × Ty) := []
  deriving Inhabited

namespace Subst

/-- The binding of a variable. -/
def get? (s : Subst) (id : Nat) : Option Ty := (s.bindings.find? fun (i, _) => i == id).map (·.2)

/-- Sets the binding of a variable, whether it had one or not. -/
def assign (s : Subst) (id : Nat) (t : Ty) : Subst :=
  ⟨max s.size id, (id, t) :: s.bindings.filter fun (i, _) => i != id⟩

@[simp] theorem get?_empty (id : Nat) : ({} : Subst).get? id = none := rfl

@[simp] theorem size_assign (s : Subst) (id : Nat) (t : Ty) :
    (s.assign id t).size = max s.size id := rfl

@[simp] theorem get?_assign_self (s : Subst) (id : Nat) (t : Ty) :
    (s.assign id t).get? id = some t := by
  simp [assign, get?]

/-- Setting one binding leaves the others as they are. -/
theorem get?_assign_of_ne {s : Subst} {id other : Nat} (t : Ty) (h : other ≠ id) :
    (s.assign id t).get? other = s.get? other := by
  have found : (s.bindings.filter fun (i, _) => i != id).find? (fun (i, _) => i == other) =
      s.bindings.find? fun (i, _) => i == other := by
    rw [List.find?_filter]
    congr 1
    funext ⟨i, _⟩
    by_cases hi : i = other <;> simp [hi, h]
  simp [assign, get?, Ne.symm h, found]

/-- Whether a type is a variable with a binding. -/
def isBound (s : Subst) (t : Ty) : Bool :=
  match t.varId? with
  | some id => (s.get? id).isSome
  | none => false

/-- The next variable, with constraints. -/
def fresh (s : Subst) (constraints : List Ty) : Ty × Subst :=
  (.var (s.size + 1) constraints, { s with size := s.size + 1 })

@[simp] theorem get?_fresh (s : Subst) (cs : List Ty) (id : Nat) :
    (s.fresh cs).2.get? id = s.get? id := rfl

@[simp] theorem size_fresh (s : Subst) (cs : List Ty) : (s.fresh cs).2.size = s.size + 1 := rfl

/-- Replaces bound variables, following at most `fuel` bindings in a row. -/
def applyN (s : Subst) : (fuel : Nat) → Ty → Ty
  | 0 => id
  | fuel + 1 => Ty.substVars fun i => (s.get? i).map (s.applyN fuel)

/-- Replaces bound variables throughout a type. -/
def apply (s : Subst) (t : Ty) : Ty := s.applyN (s.size + 1) t

/-- The variables that a type leads to, following at most `fuel` bindings in a row. -/
def reachN (s : Subst) : (fuel : Nat) → Ty → List Nat
  | 0 => fun _ => []
  | fuel + 1 => Ty.gather fun i =>
    match s.get? i with
    | some t => (i :: s.reachN fuel t, false)
    | none => ([i], true)

/-- The variables that a type leads to: its own, those of the bindings on the way, and those in the
constraints of unbound variables. -/
def reach (s : Subst) (t : Ty) : List Nat := s.reachN (s.size + 1) t

/-- Whether a type leads to a variable. -/
def occurs (s : Subst) (id : Nat) (t : Ty) : Bool := (s.reach t).contains id

/-- The unbound variables that a type leads to, in increasing order. -/
def free (s : Subst) (t : Ty) : List Nat := sortIds ((s.reach t).filter fun i => (s.get? i).isNone)

/-- The bound variables that a type leads to, in increasing order. -/
def bound (s : Subst) (t : Ty) : List Nat := sortIds ((s.reach t).filter fun i => (s.get? i).isSome)

/-- Renumbers the given variables to the next free numbers, in the order of the list. -/
def renew (s : Subst) (ids : List Nat) (t : Ty) : Ty × Subst :=
  (t.renumber fun i => (ids.idxOf? i).map (s.size + 1 + ·), { s with size := s.size + ids.length })

/-- A copy of a type with its unbound variables replaced by fresh ones that keep the constraints. -/
def instantiate (s : Subst) (t : Ty) : Ty × Subst :=
  let t := s.apply t
  s.renew (s.free t) t

/-- A copy of a generic type with all of its variables replaced by fresh ones. The variables of `t`
are its own, whatever is bound to their numbers. -/
def instantiateGeneric (s : Subst) (t : Ty) : Ty × Subst := s.renew (sortIds t.vars) t

end Subst

end Resolvent
