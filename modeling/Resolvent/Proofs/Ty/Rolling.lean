import Resolvent.Proofs.Subst.Depth
import Resolvent.Proofs.Ty.Equivalence

/-!
# Rolled and unrolled types

A self reference to a whole type can be replaced by a copy of the type, and this can be done for any
of them.
-/

namespace Resolvent.Ty

open List

variable {t u root : Ty} {x y : Site} {p : Param} {ps : List Param} {k ka : Kind} {i j fuel : Nat}
  {path : List Nat} {chosen : List Nat → Bool} {seen : List (List Nat × List Nat)}

mutual

/-- What stands at a path, with a copy of the whole type for each self reference to it that is
chosen by its path. A copy is optional if the reference is. -/
def rollOut (root : Ty) (chosen : List Nat → Bool) (path : List Nat) : Ty → Ty
  | plain k =>
    if k.isSelf && k.slot == path.length &&
      chosen path then root.setKind (root.kind.withOptional k.optional) else plain k
  | detailed k name ps cs =>
    (detailed k name ps cs).withParams (rollOutParams root chosen path 0 ps)

/-- The parameters of what stands at a path, counted from an index on. -/
def rollOutParams (root : Ty) (chosen : List Nat → Bool) (path : List Nat) :
    Nat → List (String × Ty) → List (String × Ty)
  | _, [] => []
  | i, (n, t) :: ps => (n, rollOut root chosen (i :: path) t) ::
      rollOutParams root chosen path (i + 1) ps

end

/-- The type with copies of it for those self references to it that stand at the chosen paths. -/
def unrolled (t : Ty) (chosen : List Nat → Bool) : Ty := rollOut t chosen [] t

lemma getElem?_rollOutParams (root : Ty) (chosen : List Nat → Bool) (path : List Nat) (i j : Nat)
    (ps : List Param) : (rollOutParams root chosen path i ps)[j]? = ps[j]?.map fun p =>
    (p.1, rollOut root chosen ((i + j) :: path) p.2) := by
  induction ps generalizing i j with
  | nil => rfl
  | cons p ps ih =>
    cases j with
    | zero => rfl
    | succ j => rw [rollOutParams, getElem?_cons_succ, ih, getElem?_cons_succ, Nat.add_right_comm,
        Nat.add_assoc]

lemma length_rollOutParams (root : Ty) (chosen : List Nat → Bool) (path : List Nat) (i : Nat)
    (ps : List Param) : (rollOutParams root chosen path i ps).length = ps.length := by
  induction ps generalizing i with
  | nil => rfl
  | cons p ps ih => rw [rollOutParams, length_cons, length_cons, ih]

/-! ## Kinds -/

lemma head?_rollOutParams (root : Ty) (chosen : List Nat → Bool) (path : List Nat)
    (ps : List Param) : (rollOutParams root chosen path 0 ps).head? = ps.head?.map fun p =>
    (p.1, rollOut root chosen (0 :: path) p.2) := by
  rw [head?_eq_getElem?, head?_eq_getElem?, getElem?_rollOutParams]

lemma depth_rollOut (hroot : root.kind.isElemCont = false) (h : t.Consistent) (path : List Nat) :
    (rollOut root chosen path t).kind.depth = t.kind.depth := by
  induction t using induct generalizing path with
  | node t ih =>
    cases t with
    | plain k =>
      rw [rollOut]
      split
      · next hk =>
        simp only [Bool.and_eq_true] at hk
        have hcont : k.isElemCont = false := by
          rw [Kind.isElemCont_congr (k := .self) (by simpa [Kind.isSelf] using hk.1.1)]
          decide
        have hcopy : (root.kind.withOptional k.optional).isElemCont = false := hroot
        rw [kind_setKind, kind, Kind.depth, Kind.depth, hcont, hcopy]
        rfl
      · rfl
    | detailed k name ps cs =>
      rw [rollOut, h.withParams_eq (length_rollOutParams ..)]
      · rfl
      · intro p hp q hq
        rw [head?_rollOutParams, hp] at hq
        cases hq
        have hmem : p ∈ (detailed k name ps cs).params := mem_of_mem_head? hp
        exact ih p hmem (h.part hmem) _

lemma rollOut_detailed (hroot : root.kind.isElemCont = false) {name : String}
    {cs : List (String × Int64)} (h : (detailed k name ps cs).Consistent) (path : List Nat) :
    rollOut root chosen path (detailed k name ps cs) =
    detailed k name (rollOutParams root chosen path 0 ps) cs := by
  rw [rollOut, h.withParams_eq (length_rollOutParams ..)]
  intro p hp q hq
  rw [head?_rollOutParams, hp] at hq
  cases hq
  exact depth_rollOut hroot (h.part (mem_of_mem_head? hp)) _

/-! ## Comparing -/

lemma equalAt_copy_ne_false (h : y.node = x.node.setKind k) :
    equalAt fuel x ka y ka seen ≠ some false := by
  induction fuel generalizing x y k ka seen with
  | zero => simp [equalAt]
  | succ fuel ih =>
    rw [equalAt_of_same_isSelf rfl, if_pos rfl, h]
    cases x.node with
    | plain j => simp [setKind]
    | detailed j n ps cs =>
      dsimp only [setKind]
      split
      · simp
      · rw [if_pos ⟨rfl, rfl, rfl⟩]
        refine equalParams_ne_false rfl fun j p q hp hq => ?_
        obtain rfl : p = q := Option.some.inj (hp.symm.trans hq)
        exact ⟨rfl, ih (k := p.2.kind) (by cases p.2 <;> rfl)⟩

lemma Site.In.enclosing?_length (h : x.In t) (hpath : x.path ≠ []) :
    x.enclosing? x.path.length = some ⟨t, [], []⟩ := by
  induction h using induct with
  | root => exact absurd rfl hpath
  | child r i p hr hp ih =>
    change (r.child i p.2).enclosing? (r.path.length + 1) = _
    rw [enclosing?_child]
    split
    · next hlen =>
      have hroot := hr.eq_of_path (.root t) (length_eq_zero_iff.1 hlen)
      rw [hroot]
    · next hlen => exact ih fun hnil => hlen (by rw [hnil, length_nil])

lemma Consistent.node (h : t.Consistent) (hx : x.In t) : x.node.Consistent := by
  induction hx using Site.In.induct with
  | root => exact h
  | child r i p _ hp ih => exact ih.part (mem_of_getElem? hp)

lemma equalAt_rollOut_ne_false (hroot : t.kind.isElemCont = false) (hself : t.kind.isSelf = false)
    (h : t.Consistent) (hx : x.In t) (hy : y.node = rollOut t chosen x.path x.node) :
    equalAt fuel x x.node.kind y y.node.kind seen ≠ some false := by
  induction fuel generalizing x y seen with
  | zero => simp [equalAt]
  | succ fuel ih =>
    cases hnode : x.node with
    | plain k =>
      rw [hnode, rollOut] at hy
      split at hy
      · next hk =>
        -- The reference is replaced: from here on the whole type is compared with its copy.
        simp only [Bool.and_eq_true, beq_iff_eq] at hk
        obtain ⟨⟨hks, hslot⟩, -⟩ := hk
        have hpath : x.path ≠ [] := by
          intro hnil
          have hxt := hx.eq_of_path (.root t) hnil
          rw [hxt] at hnode
          have htk : t = plain k := hnode
          rw [htk] at hself
          simp [kind, hks] at hself
        have hcopy : (t.kind.withOptional k.optional).isSelf = false := hself
        rw [hy, kind_setKind, kind, equalAt_left hks hcopy, hslot, hx.enclosing?_length hpath]
        exact equalAt_copy_ne_false hy
      · rw [equalAt_of_same_isSelf (by rw [hy]), hy, hnode]
        simp
    | detailed k n ps cs =>
      have hcons : (detailed k n ps cs).Consistent := hnode ▸ h.node hx
      rw [hnode, rollOut_detailed hroot hcons] at hy
      have hkind : (detailed k n ps cs).kind = y.node.kind := by
        rw [hy]
        rfl
      rw [equalAt_of_same_isSelf (by rw [hkind]), if_pos hkind, hnode, hy]
      dsimp only
      split
      · simp
      · rw [if_pos ⟨rfl, rfl, (length_rollOutParams ..).symm⟩]
        refine equalParams_ne_false (length_rollOutParams ..).symm fun j p q hp hq => ?_
        rw [getElem?_rollOutParams, hp] at hq
        cases hq
        rw [Nat.zero_add]
        exact ⟨rfl, ih (hx.child (by rwa [hnode])) rfl⟩

/-- A type equals what it unrolls to. -/
theorem equal_unrolled {src : String} (h : parse src = .ok t)
    (hkind : t.kind.bare ∈ [Kind.obj, Kind.form, Kind.func])
    (chosen : List Nat → Bool) : equal t (t.unrolled chosen) ∧ equal (t.unrolled chosen) t := by
  have hbits : t.kind.isElemCont = false ∧ t.kind.isSelf = false :=
    (by decide : ∀ k ∈ [Kind.obj, Kind.form, Kind.func], k.isElemCont = false ∧
      k.isSelf = false) t.kind.bare hkind
  have hne : equal? (equalBudget t (t.unrolled chosen)) t (t.unrolled chosen) ≠ some false :=
    equalAt_rollOut_ne_false hbits.1 hbits.2 (notated_of_parse h).consistent (.root t) rfl
  have hequal := equal_of_ne_false hne
  exact ⟨hequal, equal_comm t _ ▸ hequal⟩

/-- A node whose children and whose successor are nodes, with both references to it written out, and
with one of them. -/
theorem equal_unrolled_node : let t := obj "node" [("kids", list (self 2)), ("next", (self 1).opt)]
    t.unrolled (fun _ => true) = obj "node" [("kids", list t), ("next", t.opt)] ∧
      t.unrolled (· == [1]) = obj "node" [("kids", list (self 2)), ("next", t.opt)] ∧
      ∀ chosen, equal t (t.unrolled chosen) ∧ equal (t.unrolled chosen) t := by
  have ht : parse "(obj \"node\" +kids list|@2 +next @1?)" =
    .ok (obj "node" [("kids", list (self 2)), ("next", (self 1).opt)]) := by
    cbv
  exact ⟨rfl, rfl, equal_unrolled ht (by decide)⟩

end Resolvent.Ty
