import Resolvent.Ty.Basic

/-!
# Equality of types and alternatives

Types are equal when they are built alike, where a self reference on one side only stands for the
type that it points at. Following references can lead back to a pair of places that is being
compared already; such a pair is taken for equal, since whatever tells the two apart would be found
on the first visit. Two self references are compared as they stand, by their kinds.

A place in a type is named by its path from the root, so the pairs on the way are pairs of paths.
The search ends because a type has finitely many places: `Ty.equalBudget` counts the pairs.
-/

namespace Resolvent.Ty

/-- A place in a type: what stands there, the types around it with the nearest first, and the path
that leads there with the last step first. -/
structure Site where
  node : Ty
  above : List Ty := []
  path : List Nat := []

namespace Site

/-- The place of the parameter with the given index. -/
def child (s : Site) (index : Nat) (t : Ty) : Site := ⟨t, s.node :: s.above, index :: s.path⟩

/-- The place of the enclosing type `dist` levels up. -/
def enclosing? (s : Site) (dist : Nat) : Option Site :=
  if dist = 0 then none
  else match s.above.drop (dist - 1) with
    | t :: above => some ⟨t, above, s.path.drop dist⟩
    | [] => none

end Site

/-- Compares parameters in pairs until one differs. -/
def equalParams (equal : Nat → Ty → Ty → Option Bool) : (index : Nat) → List Param →
    List Param → Option Bool
  | index, (n, t) :: ps, (m, u) :: qs =>
    if n = m then
      match equal index t u with
      | some true => equalParams equal (index + 1) ps qs
      | verdict => verdict
    else some false
  | _, [], [] => some true
  | _, _, _ => some false

/-- Compares what stands at two places, read with the given kinds. `seen` holds the pairs of places
on the way here. There is no verdict if the fuel runs out. -/
def equalAt : (fuel : Nat) → (a : Site) → (ka : Kind) → (b : Site) → (kb : Kind) →
    (seen : List (List Nat × List Nat)) → Option Bool
  | 0, _, _, _, _, _ => none
  | fuel + 1, a, ka, b, kb, seen =>
    match ka.isSelf, kb.isSelf with
    | true, false =>
      match a.enclosing? ka.slot with
      | some a' => equalAt fuel a' (a'.node.kind.withOptional ka.optional) b kb seen
      | none => some false
    | false, true =>
      match b.enclosing? kb.slot with
      | some b' => equalAt fuel a ka b' (b'.node.kind.withOptional kb.optional) seen
      | none => some false
    | _, _ =>
      if ka = kb then
        match a.node, b.node with
        | plain _, plain _ => some true
        | detailed _ n ps cs, detailed _ m qs ds =>
          if seen.contains (a.path, b.path) then some true
          else if n = m ∧ cs = ds ∧ ps.length = qs.length then
            equalParams (fun i t u =>
              equalAt fuel (a.child i t) t.kind (b.child i u) u.kind ((a.path, b.path) :: seen)) 0
              ps qs
          else some false
        | _, _ => some false
      else some false

/-- Enough fuel for any two types: every pair of places once, and between two pairs at most one walk
up each type. -/
def equalBudget (a b : Ty) : Nat := (a.size * b.size + 1) * (a.size + b.size + 2)

/-- The verdict on two types, within a budget. -/
def equal? (fuel : Nat) (a b : Ty) : Option Bool :=
  equalAt fuel ⟨a, [], []⟩ a.kind ⟨b, [], []⟩ b.kind []

/-- Whether two types are equal. -/
def equal (a b : Ty) : Bool := (equal? (equalBudget a b) a b).getD false

instance : BEq Ty := ⟨equal⟩

/-! ## Alternatives

An alternative lists candidate types. Lists are flat and hold no two equal candidates, and one
candidate alone stands for itself. -/

/-- Adds a candidate at the end unless an equal one is there. -/
def addCandidate (cands : List Ty) (t : Ty) : List Ty :=
  if cands.any (equal · t) then cands else cands ++ [t]

/-- The candidates that a type brings into an alternative. -/
def candidates (t : Ty) : List Ty := if t.kind.isAlt then t.params.map (·.2) else [t]

/-- The flat alternative of some types. -/
def alt (ts : List Ty) : Ty :=
  match (ts.flatMap candidates).foldl addCandidate [] with
  | [t] => t
  | cands => detailed .alt "" (cands.map fun c => ("", c)) []

end Resolvent.Ty
