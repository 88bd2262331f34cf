import Resolvent.Operator.Reduce
import Resolvent.Session.Basic

/-!
# Resolving calls

Each operator resolves its arguments in its own way and replaces the call where the result is known
already. Most resolve all arguments and stop there; arithmetic, text and comparison fold literal
arguments; logic drops arguments that do not decide; a condition picks its branch; `let` and `fn`
open scopes.
-/

namespace Resolvent.Operator

open Run

/-- Resolves the arguments and leaves the call. -/
def resolvePlain (steps : Steps) (scope : Scope) (id : Nat) (c : Call) : Run Nat := do
  let (groups, ok) ← resolveArgs steps scope c
  finish id c groups ok

/-- The leading elements whose values are known. -/
def knownValues (s : Store) : List Nat → List Val
  | [] => []
  | id :: ids =>
    match s.val? id with
    | some v => v :: knownValues s ids
    | none => []

/-- Resolves the arguments, then folds literals. A call with all of its only group known becomes
their reduction. If `leading` is set, two or more known arguments at the front become one. -/
def resolveFold (leading : Bool) (reduce : List Val → Except EvalCause Val) (steps : Steps)
    (scope : Scope) (id : Nat) (c : Call) : Run Nat := do
  let span ← spanOf id
  let (groups, ok) ← resolveArgs steps scope c
  match groups with
  | [] => finish id c [] ok
  | args :: more =>
    let store := (← get).store
    let vals := knownValues store args
    if vals.length = args.length ∧ ok ∧ more.isEmpty then
      match reduce vals with
      | .ok v => literal v span
      | .error _ => finish id c (args :: more) ok
    else if leading ∧ vals.length ≥ 2 then
      match reduce vals, args.head?, args[vals.length - 1]? with
      | .ok v, some first, some last => do
        let folded ← literal v ((store.span first).merge (store.span last))
        finish id c ((folded :: args.drop vals.length) :: more) ok
      | _, _, _ => finish id c (args :: more) ok
    else finish id c (args :: more) ok

/-- Whether a value decides a conjunction, or else a disjunction. -/
def decides (conjunction : Bool) (v : Val) : Bool := v.isZero == conjunction

/-- Resolves the arguments of a conjunction or disjunction up to one that decides. Those that are
known not to decide are dropped. The kept arguments come with a flag for each way out: whether the
result is decided at once, and whether all arguments are resolved. -/
def resolveLogicArgs (conjunction : Bool) (steps : Steps) (scope : Scope) (kept : List Nat)
    (ok : Bool) : List Nat → Run (List Nat × Bool × Bool)
  | [] => return (kept, false, ok)
  | a :: rest => do
    let (r, resolved) ← resolveOrResidual steps scope a .void
    if resolved then
      match ← val? r with
      | some v =>
        if decides conjunction v then
          if kept.isEmpty then return ([], true, ok) else return (kept ++ [r], false, ok)
        else resolveLogicArgs conjunction steps scope kept ok rest
      | none => resolveLogicArgs conjunction steps scope (kept ++ [r]) ok rest
    else resolveLogicArgs conjunction steps scope (kept ++ [r]) false rest

def resolveLogic (conjunction : Bool) (steps : Steps) (scope : Scope) (id : Nat) (c : Call) :
    Run Nat := do
  let span ← spanOf id
  let (kept, decided, ok) ← resolveLogicArgs conjunction steps scope [] true (c.group 0)
  if decided then literal (.bool !conjunction) span
  else if kept.isEmpty then literal (.bool conjunction) span
  else finish id c [kept] ok

/-- The argument of a negation. -/
def negated? (s : Store) (id : Nat) : Option Nat :=
  match s.content id with
  | .call c => if c.callable.name = Builtin.not.name then c.arg? 0 else none
  | _ => none

/-- Negates a known value, and takes two negations for the truth of what they negate. -/
def resolveNot (steps : Steps) (scope : Scope) (id : Nat) (c : Call) : Run Nat := do
  let span ← spanOf id
  let a ← needArg c 0 "a"
  let (r, ok) ← resolveOrResidual steps scope a .void
  let s ← get
  match s.store.val? r, ok with
  | some v, true => literal (.bool v.isZero) span
  | _, _ =>
    match negated? s.store r, s.catalog.callable? Builtin.ok.name with
    | some inner, some truth => do
      let el ← alloc (.call ⟨truth, [[inner]], none⟩) span
      if ok then steps.resolve scope el .void else throw (.unresolved el)
    | _, _ => finish id c [[r]] ok

/-- Picks the branch of a known condition; otherwise resolves both. -/
def resolveCond (steps : Steps) (scope : Scope) (id : Nat) (c : Call) : Run Nat := do
  let span ← spanOf id
  let cond ← needArg c 0 "cond"
  let (r, ok) ← resolveOrResidual steps scope cond .void
  match ← val? r, ok with
  | some v, true =>
    match c.arg? (if v.isZero then 2 else 1) with
    | some branch => steps.resolve scope branch c.typ.result
    | none => literal .null span
  | _, _ => do
    let (groups, oks) ← resolveGroups steps scope c ((List.range c.groups.length).drop 1)
    finish id c ([r] :: groups) (ok && oks)

/-- The declarations of a `let` so far. -/
structure LetScope where
  defs : List (String × Definition) := []
  decls : List Nat := []
  resolved : Bool := true
  /-- All values are known. -/
  known : Bool := true

/-- Resolves one declaration in the scope of those before it. -/
def resolveLetDecl (steps : Steps) (scope : Scope) (l : LetScope) (decl : Nat) : Run LetScope := do
  let (name, arg) ← declArg decl
  let (r, ok) ← resolveOrResidual steps (.locals l.defs :: scope) arg .void
  let s ← get
  let val := s.store.val? r
  let d : Definition := if ok then ⟨s.typeOf r, val, s.store.callable? r, false⟩ else .waiting
  let defs ← ofExcept (Frame.define l.defs name d)
  let next ← if r = arg then pure decl else alloc (.decl name [r]) (← spanOf decl)
  return {
    defs
    decls := l.decls ++ [next]
    resolved := l.resolved && ok
    known := l.known && (!ok || val.isSome) }

/-- Resolves the body of a `let`; the result of the call is expected of the last element. -/
def resolveLetBody (steps : Steps) (scope : Scope) (result : Ty) : List Nat → Run (List Nat × Bool)
  | [] => return ([], true)
  | id :: ids => do
    let (r, ok) ← resolveOrResidual steps scope id (if ids.isEmpty then result else .void)
    let (rs, oks) ← resolveLetBody steps scope result ids
    return (r :: rs, ok && oks)

/-- Resolves declarations and body. With all values known the call becomes the value of its last
element. -/
def resolveLet (steps : Steps) (scope : Scope) (id : Nat) (c : Call) : Run Nat := do
  let span ← spanOf id
  let l ← (c.group 0).foldlM (resolveLetDecl steps scope) {}
  let (tail, ok) ← resolveLetBody steps (.locals l.defs :: scope) c.typ.result (c.group 1)
  let resolved := l.resolved && ok
  let last := tail.getLast?.bind (← get).store.val?
  match last, l.known && resolved with
  | some v, true => literal v span
  | _, _ => finish id c [l.decls, tail] resolved

/-- Resolves the type of one parameter. While it is unresolved, so is the whole function. -/
def resolveParam (steps : Steps) (scope : Scope) (id : Nat) (decl : Nat) : Run Param := do
  let (name, arg) ← declArg decl
  match ← attempt (steps.resolve scope arg .void) with
  | .error (.unresolved _) => throw (.unresolved id)
  | .error e => throw e
  | .ok r =>
    match ← val? r with
    | some (.typ t) => return (name, t)
    | _ => throw (.eval (.untypedParameter name) (← spanOf arg))

/-- Resolves the types of the parameters. -/
def resolveParams (steps : Steps) (scope : Scope) (id : Nat) : List Nat → Run (List Param)
  | [] => return []
  | decl :: decls => do
    let p ← resolveParam steps scope id decl
    let ps ← resolveParams steps scope id decls
    return p :: ps

/-- The names without a sigil that occur in elements, other than the bound ones, each once. -/
def freeNames (bound : List String) (elements : List Element) : List String :=
  elements.foldl (fun names e =>
    match e.content with
    | .name n _ =>
      if (Sigil.of? n).isNone && !bound.contains n && !names.contains n then names ++ [n] else names
    | _ => names) []

/-- The definitions that a function keeps of the names it uses, and whether one of them has no value
yet. -/
def capture (scope : Scope) : List String → Except Failure (List (String × Definition) × Bool)
  | [] => .ok ([], false)
  | n :: ns => do
    let found ← scope.lookup n
    let (defs, waits) ← capture scope ns
    match found with
    | some d => if d.isKnown then return ((n, d) :: defs, waits) else return (defs, true)
    | none => return (defs, waits)

/-- Resolves a function literal. It owns a copy of its body and the definitions of the free names it
uses. If one of these has no value yet, the call stays, typed with the signature. -/
def resolveLambda (steps : Steps) (scope : Scope) (id : Nat) (c : Call) : Run Nat := do
  let span ← spanOf id
  let params ← resolveParams steps scope id (c.group 0)
  let inner := Frame.params (params.map fun (n, t) => (n, .typed t)) :: scope
  let (body, ok) ← resolveAll steps inner .void (c.group 1)
  if ok then
    let s ← get
    let result := (body.getLast?.map s.typeOf).getD .void
    let sig := Ty.func "" (params ++ [("", result)])
    let names := params.map (·.1)
    let (roots, copy) := s.store.extract body
    let (captured, waits) ← ofExcept (capture scope (freeNames names copy.elements.toList))
    if waits then
      let _ ← solve (Subst.unify c.typ.result sig) span
      finish id c [c.group 0, body] true
    else
      let stamp ← freshStamp
      literal (.fn ⟨sig, .closure names copy.elements roots s.subst captured, stamp⟩) span
  else finish id c [c.group 0, body] false

/-- The type that a construction is given. -/
def target? (s : Store) (c : Call) : Option Ty :=
  match (c.arg? 0).bind s.val? with
  | some (.typ t) => some t
  | _ => none

/-- Resolves the arguments of a construction. The given type is the type of the result, and known
arguments are converted at once where that works. -/
def resolveConstruct (steps : Steps) (scope : Scope) (id : Nat) (c : Call) : Run Nat := do
  let span ← spanOf id
  let next ← resolvePlain steps scope id c
  let store := (← get).store
  match store.content next with
  | .call c =>
    match target? store c with
    | some t => do
      let _ ← solve (Subst.unify c.typ.result t) span
      match ((c.group 1).mapM store.val?).map (Val.construct t) with
      | some (.ok v) => literal v span
      | _ => return next
    | none => return next
  | _ => return next

/-- Resolves a call of a builtin operator. -/
def resolveBuiltin (b : Builtin) (steps : Steps) (scope : Scope) (id : Nat) (c : Call) : Run Nat :=
  match b with
  | .and => resolveLogic true steps scope id c
  | .or => resolveLogic false steps scope id c
  | .not => resolveNot steps scope id c
  | .ok => resolveFold false Reduce.truth steps scope id c
  | .cond => resolveCond steps scope id c
  | .add => resolveFold true Reduce.sum steps scope id c
  | .cat => resolveFold true Reduce.concat steps scope id c
  | .eq => resolveFold false Reduce.equality steps scope id c
  | .lt => resolveFold false Reduce.order steps scope id c
  | .scope => resolveLet steps scope id c
  | .lambda => resolveLambda steps scope id c
  | .construct => resolveConstruct steps scope id c
  | .fail | .append | .merge => resolvePlain steps scope id c

/-- Resolves a call that has a signature of its own. -/
def resolve (steps : Steps) (scope : Scope) (id : Nat) (c : Call) : Run Nat :=
  match c.callable.op with
  | .builtin b => resolveBuiltin b steps scope id c
  | .closure _ _ _ _ _ | .apply | .collect => resolvePlain steps scope id c

end Resolvent.Operator
