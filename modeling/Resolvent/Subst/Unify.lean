import Resolvent.Subst.Basic
import Resolvent.Ty.Equality
import Resolvent.Ty.Fit

/-!
# Unification

Unifying two types gives their most specific common type and binds variables on the way. A bound
variable that takes part is bound anew to an alternative of its binding and the result, so that
later choices see both. Choosing resolves alternatives to the common type of their candidates, or to
`any` where two candidates have none.

Both are searches that thread a substitution. A search that fails keeps the bindings it has made.
-/

namespace Resolvent

/-- A search over types that threads a substitution, also through failures. -/
abbrev Solve := ExceptT TyError (StateM Subst)

namespace Solve

/-- Runs a search: its outcome and the substitution it leaves. -/
def exec {α : Type} (m : Solve α) (s : Subst) : Except TyError α × Subst :=
  StateT.run (ExceptT.run m) s

/-- The outcome of a search as a value, so that a failure can be looked at. -/
def attempt {α : Type} (m : Solve α) : Solve (Except TyError α) :=
  ExceptT.mk (do return .ok (← m.run))

end Solve

namespace Subst

/-- A fresh variable. -/
def newVar (constraints : List Ty) : Solve Ty := do
  let (t, s) := (← get).fresh constraints
  set s
  return t

/-- Binds a variable, unless the type leads back to it. -/
def bind (v t : Ty) : Solve Unit := do
  match v.varId? with
  | some (id + 1) =>
    if (← get).occurs (id + 1) t then throw (.recursive v t)
    else modify (·.assign (id + 1) t)
  | _ => throw (.notAVariable v)

/-- Notes in a bound variable what its binding `prev` became. -/
def remember (v prev res : Ty) : Solve Unit :=
  if Ty.equal prev res then pure () else bind v (.alt [prev, res])

/-- Binds an unbound variable to a type that satisfies its constraints. Of two variables the first
is bound to the second, which takes over its constraints. -/
def bindVar (choose : Ty → Solve Ty) (v t : Ty) : Solve Ty := do
  match t.varId? with
  | some id =>
    if v.varId? = some id then return t
    let merged := (Ty.var id (v.members.foldl Ty.addCandidate t.members)).optIf t.isOpt
    bind v merged
    return merged
  | none =>
    unless v.members.isEmpty do
      let chosen ← choose t
      unless v.members.any fun c => (Ty.fit chosen c).isCompatible do throw (.constraint v t)
    bind v (if v.isOpt then t.deopt else t)
    return t

/-- The common kind of two primitive types or specs, by the intersection of their families. -/
def join (a b : Ty) : Except TyError Ty :=
  let fa := a.kind.family
  let fb := b.kind.family
  let common : Kind := ⟨fa &&& fb, false, 0⟩
  if fa == fb then
    if a.kind.isSpec then .error (.noCommonType a b) else .ok (.plain a.kind.bare)
  else if common.isVoid || !common.isKnown || common.isAny then .error (.noCommonType a b)
  else if common.family == fa && !a.isDetailed then .ok a
  else if common.family == fb && !b.isDetailed then .ok b
  else .ok (.plain common)

/-- The element type of a container; an object has the common type of its fields. -/
def elemOf (choose : Ty → Solve Ty) (t : Ty) : Solve (Option Ty) :=
  if !t.kind.isObj then pure t.elem?
  else if t.params.isEmpty then pure none
  else return some (← choose (.alt (t.params.map (·.2))))

/-- The common fields of two objects, in the order of the first. -/
def unifyFields (unify : Ty → Ty → Solve Ty) (b : Ty) : List Param → Solve (List Param)
  | [] => pure []
  | (n, t) :: ps => do
    match b.field? (Param.key n) with
    | some (m, u) =>
      let typ ← unify t u
      let rest ← unifyFields unify b ps
      return (if Param.isOpt n then m else n, typ) :: rest
    | none => unifyFields unify b ps

/-- Objects unify over their common fields. -/
def unifyObjects (unify : Ty → Ty → Solve Ty) (a b : Ty) : Solve Ty := do
  if !a.isDetailed || !b.isDetailed then return .plain .obj
  let fields ← unifyFields unify b a.params
  return .obj (if a.name = b.name then a.name else "") fields

/-- Containers unify to what their kinds have in common, over the common type of their elements. -/
def unifyContainers (unify : Ty → Ty → Solve Ty) (choose : Ty → Solve Ty) (a b : Ty) : Solve Ty :=
  do
  let common : Kind := ⟨a.kind.family &&& b.kind.family, false, 0⟩
  if common.bits == 0 then throw (.noCommonType a b)
  if common.isObj then unifyObjects unify a b
  else
    let ea ← elemOf choose a
    let eb ← elemOf choose b
    match ea, eb with
    | some ea, some eb => ofExcept (Ty.cont common (← unify ea eb))
    | some e, none => ofExcept (Ty.cont common e)
    | none, some e => ofExcept (Ty.cont common e)
    | none, none => return .plain common

/-- Unifies types that are neither variables nor alternatives. -/
def unifyPlain (unify : Ty → Ty → Solve Ty) (choose : Ty → Solve Ty) (a b : Ty) : Solve Ty := do
  if Ty.equal a b then return a
  let optional := a.isOpt || b.isOpt
  let a := a.deopt
  let b := b.deopt
  if Ty.equal a b then return a.optIf optional
  if a.isAny then return b.optIf optional
  if b.isAny then return a.optIf optional
  if a.kind.isRef || a.kind.isSch then throw (.unresolvedReference a)
  if b.kind.isRef || b.kind.isSch then throw (.unresolvedReference b)
  if a.kind.isCtx || b.kind.isCtx then throw (.noCommonType a b)
  let res ←
    if a.kind.isCont && b.kind.isCont then unifyContainers unify choose a b
    else ofExcept (join a b)
  return res.optIf optional

/-- Folds the candidates of an alternative into their common type. Without one the result is `any`.
-/
def foldCandidates (unify : Ty → Ty → Solve Ty) (choose : Ty → Solve Ty) (optional : Bool) :
    List Ty → Option Ty → Solve Ty
  | [], acc => pure (match acc with
    | some t => t.optIf optional
    | none => .void)
  | t :: ts, acc => do
    let t ← choose t
    match acc with
    | none => foldCandidates unify choose optional ts (some t)
    | some prev =>
      match ← Solve.attempt (unify prev t) with
      | .ok joined => foldCandidates unify choose optional ts (some joined)
      | .error (.noCommonType _ _) => return Ty.any.optIf optional
      | .error (.constraint _ _) => return Ty.any.optIf optional
      | .error e => throw e

/-- Maps the parameters of a type through a search, left to right. -/
def mapParams (f : Ty → Solve Ty) (t : Ty) : Solve Ty := do
  let ps ← t.params.mapM fun (n, p) => do return (n, ← f p)
  return t.withParams ps

/-- The searches that a search may make on its way. -/
structure Searches where
  unify : Ty → Ty → Solve Ty
  choose : Ty → Solve Ty

/-- Unifies two types by the given searches. -/
def unifyWith (r : Searches) (a b : Ty) : Solve Ty := do
  let s ← get
  let ta := s.apply a
  let tb := s.apply b
  if Ty.equal ta tb then return ta
  if ta.kind.isVar then bindVar r.choose ta tb
  else if tb.kind.isVar then bindVar r.choose tb ta
  else
    let ca ← r.choose ta
    let cb ← r.choose tb
    let res ← unifyPlain r.unify r.choose ca cb
    if s.isBound a then remember a ta res
    if s.isBound b then remember b tb res
    return res

/-- Resolves the alternatives of a type by the given searches. -/
def chooseWith (r : Searches) (t : Ty) : Solve Ty := do
  let t := (← get).apply t
  if t.kind.isAlt then
    foldCandidates r.unify r.choose (t.isOpt || t.members.any (·.isOpt)) t.members none
  else if t.kind.isVar then return t
  else mapParams r.choose t

/-- Replaces the variables of a type and resolves its alternatives by the given searches. -/
def realizeWith (r : Searches) (t : Ty) : Solve Ty := do
  let t ← r.choose ((← get).apply t)
  let s ← get
  let t := s.apply t
  if (s.free t).isEmpty then return t else throw (.ambiguous t)

namespace Searches

/-- No search at all. -/
def none : Searches := ⟨fun _ _ => throw .exhausted, fun _ => throw .exhausted⟩

/-- One more search around the given ones. -/
def step (r : Searches) : Searches := ⟨unifyWith r, chooseWith r⟩

/-- Searches by `same` while `n` variables are bound, by `fewer` once there are more. -/
def whileBound (n : Nat) (same fewer : Searches) : Searches where
  unify a b := do if (← get).bindings.length = n then same.unify a b else fewer.unify a b
  choose t := do if (← get).bindings.length = n then same.choose t else fewer.choose t

/-- Searches that nest at most as deep as the fuel while `n` variables are bound. -/
def nested (fewer : Searches) (n : Nat) : (fuel : Nat) → Searches
  | 0 => none
  | fuel + 1 => (whileBound n (nested fewer n fuel) fewer).step

/-- Searches that bind fewer than `vars` variables. With no further variable bound a search goes to
lower types only, so the height of the types at hand is the fuel; once a variable is bound the count
starts anew. -/
def binding : (vars : Nat) → Searches
  | 0 => none
  | vars + 1 => {
      unify := fun a b => do
        let s ← get
        let height := max (s.apply a).height (s.apply b).height
        (nested (binding vars) s.bindings.length (2 * height + 2)).unify a b
      choose := fun t => do
        let s ← get
        (nested (binding vars) s.bindings.length (2 * (s.apply t).height + 1)).choose t }

end Searches

/-- The size of a substitution: its variables and the types bound to them. -/
def weight (s : Subst) : Nat := s.bindings.foldr (fun p n => p.2.size + n) s.size

/-- The most specific common type of two types. -/
def unify (a b : Ty) : Solve Ty := do
  (Searches.binding ((← get).weight + a.size + b.size + 1)).unify a b

/-- The type with its alternatives resolved to single types. -/
def choose (t : Ty) : Solve Ty := do (Searches.binding ((← get).weight + t.size + 1)).choose t

/-- The type with variables replaced and alternatives resolved; no unbound variable may remain. -/
def realize (t : Ty) : Solve Ty := realizeWith ⟨unify, choose⟩ t

end Subst

end Resolvent
