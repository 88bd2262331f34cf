import Resolvent.Layout
import Resolvent.Scope.Basic

/-!
# Sessions

A session holds the elements being worked on and what is known about their types. Resolving and
evaluating are steps on a session that may fail; what a failing step has added stays.

Steps call each other through a `Steps` record: each operator is defined once, from the steps that
it may take on smaller problems, and the recursion is closed elsewhere.
-/

namespace Resolvent

structure Session where
  store : Store := {}
  subst : Subst := {}
  catalog : Catalog := {}
  /-- Keep going past unresolved elements and report residuals. -/
  lenient : Bool := false
  /-- The stamp of the next function literal. -/
  nextStamp : Nat := 0

/-- Steps on a session, which they change also where they fail. -/
abbrev Run := ExceptT Failure (StateM Session)

/-- The steps that an operator may take. -/
structure Steps where
  /-- Resolves an element, whose type must unify with the hint unless that is `void`. -/
  resolve : Scope → (id : Nat) → (hint : Ty) → Run Nat
  /-- Evaluates an element. -/
  eval : Scope → (id : Nat) → (hint : Ty) → Run Val
  /-- Evaluates a call that stands for the element `id`. -/
  evalCall : Scope → (id : Nat) → Call → (hint : Ty) → Run Val

namespace Session

/-- A session over a catalog. -/
def new (catalog : Catalog) (lenient : Bool) : Session :=
  { catalog, lenient, nextStamp := catalog.nextStamp }

/-- The type of an element with bound variables replaced. -/
def typeOf (s : Session) (id : Nat) : Ty := s.subst.apply (s.store.typeOf id)

end Session

namespace Run

/-- Runs steps from a session: the outcome and the session they leave. -/
def exec {α : Type} (m : Run α) (s : Session) : Except Failure α × Session :=
  StateT.run (ExceptT.run m) s

/-- The outcome of steps as a value, so that a failure can be looked at. -/
def attempt {α : Type} (m : Run α) : Run (Except Failure α) :=
  ExceptT.mk (do return .ok (← m.run))

/-- Adds an element. -/
def alloc (content : Content) (span : Span) : Run Nat := do
  let s ← get
  let (id, store) := s.store.alloc content span
  set { s with store }
  return id

/-- Adds a literal. -/
def literal (v : Val) (span : Span) : Run Nat := alloc (.literal v) span

def spanOf (id : Nat) : Run Span := return (← get).store.span id

def typeOf (id : Nat) : Run Ty := return (← get).typeOf id

def val? (id : Nat) : Run (Option Val) := return (← get).store.val? id

/-- A stamp that no function carries yet. -/
def freshStamp : Run Nat := do
  let s ← get
  set { s with nextStamp := s.nextStamp + 1 }
  return s.nextStamp

/-- Searches over the types of the session; a failure is reported at the span. -/
def solve {α : Type} (m : Solve α) (span : Span) : Run α := do
  let s ← get
  let (r, subst) := m.exec s.subst
  set { s with subst }
  match r with
  | .ok a => return a
  | .error e => throw (.typing e span)

/-- Groups arguments in the store of the session. -/
def arrange (params : List Param) (args : List Nat) : Run (List (List Nat)) := do
  let s ← get
  let (r, store) := StateT.run (ExceptT.run (Layout.arrange params args)) s.store
  set { s with store }
  ofExcept r

/-- Runs steps in a session of their own, of which only the stamps remain. -/
def within {α : Type} (inner : Session) (m : Run α) : Run α := do
  let s ← get
  let (r, t) := m.exec { inner with nextStamp := s.nextStamp }
  set { s with nextStamp := t.nextStamp }
  ofExcept r

/-- The residual of an unresolved element, in a lenient session; any other failure goes on. -/
def residual (e : Failure) : Run Nat := do
  match e with
  | .unresolved el => if (← get).lenient then return el else throw e
  | e => throw e

/-- Resolves an element; where it stays unresolved the residual comes back with the flag `false`. -/
def resolveOrResidual (steps : Steps) (scope : Scope) (id : Nat) (hint : Ty) : Run (Nat × Bool) :=
  do
  match ← attempt (steps.resolve scope id hint) with
  | .ok r => return (r, true)
  | .error e => return (← residual e, false)

/-- Resolves elements in turn, and tells whether all were. -/
def resolveAll (steps : Steps) (scope : Scope) (hint : Ty) : List Nat → Run (List Nat × Bool)
  | [] => return ([], true)
  | id :: ids => do
    let (r, ok) ← resolveOrResidual steps scope id hint
    let (rs, oks) ← resolveAll steps scope hint ids
    return (r :: rs, ok && oks)

/-- Resolves the arguments for the parameter with the given index. -/
def resolveGroup (steps : Steps) (scope : Scope) (c : Call) (i : Nat) : Run (List Nat × Bool) :=
  let hint := (c.typ.args[i]?.map Layout.hint).getD .void
  resolveAll steps scope hint (c.group i)

/-- Resolves the arguments for the parameters with the given indices. -/
def resolveGroups (steps : Steps) (scope : Scope) (c : Call) :
    List Nat → Run (List (List Nat) × Bool)
  | [] => return ([], true)
  | i :: is => do
    let (g, ok) ← resolveGroup steps scope c i
    let (gs, oks) ← resolveGroups steps scope c is
    return (g :: gs, ok && oks)

/-- Resolves all arguments of a call. -/
def resolveArgs (steps : Steps) (scope : Scope) (c : Call) : Run (List (List Nat) × Bool) :=
  resolveGroups steps scope c (List.range c.groups.length)

/-- The call with its arguments as they are now, as a new element if any of them has changed. It is
unresolved unless all of them are resolved. -/
def finish (id : Nat) (c : Call) (groups : List (List Nat)) (resolved : Bool) : Run Nat := do
  let next ← if groups = c.groups then pure id else alloc (.call { c with groups }) (← spanOf id)
  if resolved then return next else throw (.unresolved next)

/-- Evaluates elements in turn. -/
def evalAll (steps : Steps) (scope : Scope) : List Nat → Run (List Val)
  | [] => return []
  | id :: ids => do
    let v ← steps.eval scope id .void
    let vs ← evalAll steps scope ids
    return v :: vs

/-- Evaluates all arguments of a call, group by group. -/
def evalGroups (steps : Steps) (scope : Scope) : List (List Nat) → Run (List (List Val))
  | [] => return []
  | g :: gs => do
    let vs ← evalAll steps scope g
    let vss ← evalGroups steps scope gs
    return vs :: vss

/-- Evaluates elements in turn for the value of the last, null if there are none. -/
def evalLast (steps : Steps) (scope : Scope) (hint : Ty) (last : Val) : List Nat → Run Val
  | [] => return last
  | id :: ids => do
    let v ← steps.eval scope id hint
    evalLast steps scope hint v ids

/-- The first argument for a parameter that must have one. -/
def needArg (c : Call) (i : Nat) (param : String) : Run Nat :=
  match c.arg? i with
  | some id => return id
  | none => throw (.missingArg param)

/-- Name and argument of a declaration that must have exactly one. -/
def declArg (id : Nat) : Run (String × Nat) := do
  let s ← get
  match s.store.content id with
  | .decl n [arg] => return (n, arg)
  | .decl n _ => throw (.uniArity n (s.store.span id))
  | _ => throw (.uniArity "" (s.store.span id))

end Run

end Resolvent
