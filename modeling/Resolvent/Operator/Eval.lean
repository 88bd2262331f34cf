import Resolvent.Operator.Resolve

/-!
# Evaluating calls

What each operator does with its arguments at run time. Logic and conditions evaluate only what they
need; `let` binds values, `fn` makes a function value, and a function value runs its body in a
session of its own.
-/

namespace Resolvent.Operator

open Run

/-- Takes the result of a reduction, or its failure at the span. -/
def reduced (r : Except EvalCause Val) (span : Span) : Run Val :=
  match r with
  | .ok v => return v
  | .error c => throw (.eval c span)

/-- Evaluates arguments up to one that decides. -/
def evalLogic (conjunction : Bool) (steps : Steps) (scope : Scope) : List Nat → Run Val
  | [] => return .bool conjunction
  | a :: rest => do
    let v ← steps.eval scope a .void
    if decides conjunction v then return .bool !conjunction
    else evalLogic conjunction steps scope rest

/-- Evaluates a condition and the branch that it picks. -/
def evalCond (steps : Steps) (scope : Scope) (c : Call) (hint : Ty) : Run Val := do
  let cond ← needArg c 0 "cond"
  let v ← steps.eval scope cond .void
  match c.arg? (if v.isZero then 2 else 1) with
  | some branch => steps.eval scope branch hint
  | none => return .null

/-- Evaluates declarations, each in the scope of those before it. -/
def evalDecls (steps : Steps) (scope : Scope) (defs : List (String × Definition)) :
    List Nat → Run (List (String × Definition))
  | [] => return defs
  | decl :: decls => do
    let (name, arg) ← declArg decl
    let v ← steps.eval (.locals defs :: scope) arg .void
    let defs ← ofExcept (Frame.define defs name (.ofVal v))
    evalDecls steps scope defs decls

/-- Evaluates a `let`: declarations, then the body for its last value. -/
def evalLet (steps : Steps) (scope : Scope) (c : Call) (hint : Ty) : Run Val := do
  let defs ← evalDecls steps scope [] (c.group 0)
  evalLast steps (.locals defs :: scope) hint .null (c.group 1)

/-- Runs the body of a function literal with the given argument groups. A parameter without an
argument is null. -/
def evalClosure (names : List String) (body : Array Element) (roots : List Nat) (subst : Subst)
    (captured : List (String × Definition)) (steps : Steps) (groups : List (List Val)) : Run Val :=
  do
  let catalog := (← get).catalog
  let params := (names.zip groups).map fun (n, g) => (n, Definition.ofVal (g.head?.getD .null))
  let scope : Scope := [.params params, .locals captured, .catalog catalog]
  within { store := ⟨body⟩, subst, catalog } (evalLast steps scope .void .null roots)

/-- Evaluates the function that a call starts with, and calls it with the other arguments. -/
def evalApply (steps : Steps) (scope : Scope) (id : Nat) (c : Call) (hint : Ty) : Run Val := do
  let head ← needArg c 0 "fn"
  match ← steps.eval scope head .void with
  | .fn f => steps.evalCall scope id ⟨f, c.groups.drop 1, none⟩ hint
  | v => throw (.eval (.notCallable v) (← spanOf id))

/-- Evaluates a call of a builtin operator. -/
def evalBuiltin (b : Builtin) (steps : Steps) (scope : Scope) (id : Nat) (c : Call) (hint : Ty) :
    Run Val := do
  let span ← spanOf id
  let onValues (reduce : List Val → Except EvalCause Val) : Run Val := do
    reduced (reduce (← evalGroups steps scope c.groups).flatten) span
  match b with
  | .and => evalLogic true steps scope (c.group 0)
  | .or => evalLogic false steps scope (c.group 0)
  | .not => do
    let v ← steps.eval scope (← needArg c 0 "a") .void
    return .bool v.isZero
  | .ok => do
    let v ← steps.eval scope (← needArg c 0 "a") .void
    return .bool !v.isZero
  | .cond => evalCond steps scope c hint
  | .fail => onValues fun vs => .error (.failed vs)
  | .add => onValues Reduce.sum
  | .cat => onValues Reduce.concat
  | .append => do reduced (Reduce.append (← evalGroups steps scope c.groups)) span
  | .merge => onValues Reduce.merge
  | .eq => onValues Reduce.equality
  | .lt => onValues Reduce.order
  | .scope => evalLet steps scope c hint
  | .lambda => do
    let r ← resolveLambda steps scope id c
    match ← val? r with
    | some v => return v
    | none => throw (.unevaluable span)
  | .construct => do reduced (Reduce.construct (← evalGroups steps scope c.groups)) span

/-- Evaluates a call. -/
def eval (steps : Steps) (scope : Scope) (id : Nat) (c : Call) (hint : Ty) : Run Val :=
  match c.callable.op with
  | .builtin b => evalBuiltin b steps scope id c hint
  | .closure names body roots subst captured => do
    evalClosure names body roots subst captured steps (← evalGroups steps scope c.groups)
  | .apply => evalApply steps scope id c hint
  | .collect => do return .list ((← evalGroups steps scope c.groups).map .list)

end Resolvent.Operator
