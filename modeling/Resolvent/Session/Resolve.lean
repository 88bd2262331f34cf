import Resolvent.Element.Reader
import Resolvent.Operator.Eval

/-!
# Resolving and evaluating elements

Resolving looks names up, picks the operator of an expression by its head, lays out the arguments
and unifies types. It never changes an element; what it learns goes into new ones. Evaluating
computes the value of an element, resolving on the way what is not resolved yet.
-/

namespace Resolvent.Session

open Run

mutual

/-- Replaces references in a type by what `find` knows of their names; nothing if one of them is not
known. -/
def resolveRefs (find : String → Except Failure (Option Ty)) : Ty → Except Failure (Option Ty)
  | .plain k =>
    if k.isSch || k.isRef then do return (← find "").map (·.optIf k.optional)
      else .ok (some (.plain k))
  | .detailed k name ps cs =>
    if k.isSch || k.isRef then do return (← find name).map (·.optIf k.optional)
    else do
      let (ps', known) ← resolveParamRefs find ps
      return if known then some (Ty.withParams (.detailed k name ps cs) ps') else none

def resolveParamRefs (find : String → Except Failure (Option Ty)) :
    List (String × Ty) → Except Failure (List (String × Ty) × Bool)
  | [] => .ok ([], true)
  | (n, t) :: ps => do
    let r ← resolveRefs find t
    let (rs, known) ← resolveParamRefs find ps
    return ((n, r.getD t) :: rs, r.isSome && known)

end

/-- The type that a scope has under a schema name. -/
def schema? (scope : Scope) (name : String) : Except Failure (Option Ty) := do
  match (← scope.lookup ("~" ++ name)).bind (·.val) with
  | some (.typ t) => return some t
  | _ => return none

/-- Replaces the references of a type from the scope. -/
def refsIn (scope : Scope) (t : Ty) : Run (Option Ty) := ofExcept (resolveRefs (schema? scope) t)

/-- Gives a call a signature with variables of its own on the first visit. -/
def instantiate (id : Nat) (c : Call) : Run (Nat × Call) := do
  match c.sig with
  | some _ => return (id, c)
  | none =>
    let s ← get
    let (sig, subst) := s.subst.instantiateGeneric c.callable.sig
    set { s with subst }
    let c := { c with sig := some sig }
    return (← alloc (.call c) (s.store.span id), c)

/-- The callable that applies a function of the given type: the function comes first among its
parameters. -/
def applyCallable (func : Ty) : Callable := ⟨.func "apply" (("fn", func) :: func.params), .apply, 0⟩

/-- The builtin that an expression calls whose head has the given type and is no operator itself. -/
def defaultBuiltin (t : Ty) : Option Builtin :=
  if t.kind.deopt = .bool then some .and
  else if t.kind.isNum then some .add
  else if t.kind.isChar then some .cat
  else if t.kind.isKeyr then some .merge
  else if t.kind.isIdxr then some .append
  else none

/-- The operator for an expression whose head is no operator: a type constructs, a function is
applied, and any other head picks by its type. -/
def defaultCallable (head : Nat) (span : Span) : Run Callable := do
  let choice : Callable ⊕ Builtin ← match ← val? head with
    | some (.typ _) => pure (.inr .construct)
    | _ => do
      let t ← solve (Subst.choose (← Run.typeOf head)) span
      if t.kind.bare = .func ∧ !t.params.isEmpty then pure (.inl (applyCallable t))
      else match defaultBuiltin t with
        | some b => pure (.inr b)
        | none => throw (.dispatch t span)
  match choice with
  | .inl c => return c
  | .inr b =>
    match (← get).catalog.callable? b.name with
    | some c => return c
    | none => throw (.dispatch (← Run.typeOf head) span)

/-- Resolves a call on its first or a later visit. -/
def resolveCall (steps : Steps) (scope : Scope) (id : Nat) (c : Call) : Run Nat := do
  let (id, c) ← instantiate id c
  Operator.resolve steps scope id c

/-- Resolves an expression: its head first, then the call that the head makes of it. -/
def resolveExpr (steps : Steps) (scope : Scope) (id : Nat) (items : List Nat) : Run Nat := do
  let span ← spanOf id
  match items with
  | [] => throw (.dispatch .void span)
  | head :: rest =>
    let (h, ok) ← resolveOrResidual steps scope head .void
    if ok then
      let (callable, args) ← match (← get).store.callable? h with
        | some c => pure (c, rest)
        | none => do pure (← defaultCallable h span, h :: rest)
      let groups ← arrange callable.params args
      let c : Call := ⟨callable, groups, none⟩
      resolveCall steps scope (← alloc (.call c) span) c
    else
      throw (.unresolved (← alloc (.expr (h :: rest)) span))

/-- Resolves an element by what it is. -/
def resolveContent (steps : Steps) (scope : Scope) (id : Nat) : Run Nat := do
  let s ← get
  let span := s.store.span id
  match s.store.content id with
  | .literal (.typ t) =>
    match ← refsIn scope t with
    | none => throw (.unresolved id)
    | some r => if Ty.equal r t then return id else literal (.typ r) span
  | .literal _ => return id
  | .name _ (some _) => return id
  | .name n none =>
    match ← ofExcept (scope.lookup n) with
    | some d => if d.pending then throw (.unresolved id) else alloc (.name n (some d)) span
    | none => throw (.unresolved id)
  | .tag _ none => return id
  | .tag n (some el) =>
    let (r, ok) ← resolveOrResidual steps scope el .void
    let next ← if r = el then pure id else alloc (.tag n (some r)) span
    if ok then return next else throw (.unresolved next)
  | .decl n args =>
    let (rs, ok) ← resolveAll steps scope .void args
    let next ← if rs = args then pure id else alloc (.decl n rs) span
    if ok then return next else throw (.unresolved next)
  | .expr items => resolveExpr steps scope id items
  | .call c => resolveCall steps scope id c

/-- Resolves an element. Outside a lenient session an unresolved part makes the element itself
unresolved. -/
def resolveStep (steps : Steps) (scope : Scope) (id : Nat) (hint : Ty) : Run Nat := do
  match ← attempt (resolveContent steps scope id) with
  | .error (.unresolved el) => throw (.unresolved (if (← get).lenient then el else id))
  | .error e => throw e
  | .ok r =>
    unless hint.isVoid do
      let _ ← solve (Subst.unify (← Run.typeOf r) hint) (← spanOf r)
    return r

/-- Evaluates an element by what it is. -/
def evalContent (steps : Steps) (scope : Scope) (id : Nat) (hint : Ty) : Run Val := do
  let s ← get
  let span := s.store.span id
  match s.store.content id with
  | .literal (.typ t) =>
    match ← refsIn scope t with
    | some t => return .typ t
    | none => throw (.unevaluable span)
  | .literal v => return v
  | .name n d =>
    -- a value found while resolving stays bound to the scope it was found in
    let known ← match d.filter (·.isKnown) with
      | some d => pure d
      | none => do
        match ← ofExcept (scope.lookup n) with
        | some d => pure d
        | none => throw (.unevaluable span)
    match known.val, known.callable with
    | some v, _ => return v
    | none, some c => return .fn c
    | none, none => throw (.unevaluable span)
  | .tag _ (some el) => steps.eval scope el hint
  | .tag _ none => return .bool true
  | .decl _ args =>
    match args.getLast? with
    | some last => steps.eval scope last hint
    | none => return .null
  | .expr _ =>
    let r ← steps.resolve scope id hint
    steps.eval scope r hint
  | .call c =>
    let (id, c) ← instantiate id c
    Operator.eval steps scope id c hint

/-- Evaluates an element. Whatever stays unresolved is an error here. -/
def evalStep (steps : Steps) (scope : Scope) (id : Nat) (hint : Ty) : Run Val := do
  match ← attempt (evalContent steps scope id hint) with
  | .error (.unresolved el) => throw (.unevaluable (← spanOf el))
  | .error e => throw e
  | .ok v => return v

mutual

/-- Resolves an element, nesting steps no deeper than the fuel. -/
def resolveN : (fuel : Nat) → Scope → Nat → Ty → Run Nat
  | 0, _, _, _ => throw .exhausted
  | fuel + 1, scope, id,
      hint => resolveStep ⟨resolveN fuel, evalN fuel, evalCallN fuel⟩ scope id hint

/-- Evaluates an element, nesting steps no deeper than the fuel. -/
def evalN : (fuel : Nat) → Scope → Nat → Ty → Run Val
  | 0, _, _, _ => throw .exhausted
  | fuel + 1, scope, id, hint => evalStep ⟨resolveN fuel, evalN fuel, evalCallN fuel⟩ scope id hint

/-- Evaluates a call, nesting steps no deeper than the fuel. -/
def evalCallN : (fuel : Nat) → Scope → Nat → Call → Ty → Run Val
  | 0, _, _, _, _ => throw .exhausted
  | fuel + 1, scope, id, c, hint => Operator.eval ⟨resolveN fuel, evalN fuel,
      evalCallN fuel⟩ scope id c hint

end

/-- How deep steps may nest: a few for each element of the store, and a million more for calls of
functions. -/
def stepBudget (s : Session) : Nat := 4 * s.store.size + 1000000

/-- Resolves an element; its type must unify with the hint unless that is `void`. -/
def resolve (scope : Scope) (id : Nat) (hint : Ty) : Run Nat := do
  resolveN (stepBudget (← get)) scope id hint

/-- Evaluates an element. -/
def eval (scope : Scope) (id : Nat) (hint : Ty) : Run Val := do
  evalN (stepBudget (← get)) scope id hint

/-- The type of an element with nothing left open. -/
def realize (id : Nat) : Run Ty := do solve (Subst.realize (← Run.typeOf id)) (← spanOf id)

/-- Resolves an element, checks that its type is fully known, and evaluates it. -/
def run (scope : Scope) (id : Nat) (hint : Ty) : Run Val := do
  let r ← resolve scope id hint
  let _ ← realize r
  eval scope r hint

/-- Stores the elements of forms. -/
def addForms (forms : List Form) : Run (List Nat) := do
  let s ← get
  let (ids, store) := s.store.insertAll forms
  set { s with store }
  return ids

/-- Reads a source into the session: one element for each top-level form. If that fails, the
elements that were complete stay. -/
def read (source : String) : Run (List Nat) :=
  match Form.read source with
  | .ok forms => addForms forms
  | .error e => do
    let _ ← addForms (Form.leftover source)
    throw e

end Resolvent.Session
