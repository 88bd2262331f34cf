import Resolvent.Proofs.Subst.ClosedClass
import Resolvent.Proofs.Ty.Concrete
import Mathlib

/-!
# The depth of containers

A container carries the depth of its nesting in the slot of its kind, where equality and the nesting
limit read it.
-/

namespace Resolvent

open List

lemma Kind.isElemCont_congr {j k : Kind} (h : j.bits = k.bits) : j.isElemCont = k.isElemCont := by
  simp only [isElemCont, isCont, isObj, meets, h]

namespace Ty

variable {t u e : Ty} {ps qs : List Param} {k : Kind}

/-- The slot that the element of a container calls for. A slot holds no more than `Kind.maxSlot`. -/
def nesting (t : Ty) : Nat :=
  match t.elem? with
  | some e => min (e.kind.depth + 1) Kind.maxSlot
  | none => 0

lemma nesting_eq (h : t.elem? = some e) : t.nesting = min (e.kind.depth + 1) Kind.maxSlot := by
  rw [nesting, h]

/-- All containers in a type, at any depth, have the slot that their elements call for. -/
inductive Consistent : Ty → Prop
  | mk {t : Ty} : (t.kind.isElemCont → t.kind.slot = t.nesting) → (∀ p ∈ t.params, Consistent p.2) →
      Consistent t

/-- Only the four kinds of containers that have one element type have a depth. -/
example : (Kind.named ++ Kind.marked).filter (·.2.isElemCont) =
    [("idxr", .idxr), ("keyr", .keyr), ("list", .list), ("dict", .dict)] := by decide

lemma depth_optIf (t : Ty) (b : Bool) : (t.optIf b).kind.depth = t.kind.depth := by
  rw [Kind.depth, Kind.isElemCont_congr (bits_optIf t b), slot_optIf]
  rfl

namespace Consistent

lemma slot (h : t.Consistent) (hc : t.kind.isElemCont) : t.kind.slot = t.nesting := by
  cases h with
  | mk hslot _ => exact hslot hc

lemma part (h : t.Consistent) {p : Param} (hp : p ∈ t.params) : p.2.Consistent := by
  cases h with
  | mk _ hps => exact hps p hp

lemma of_not_isElemCont (hc : t.kind.isElemCont = false) (hps : ∀ p ∈ t.params, p.2.Consistent) :
    t.Consistent :=
  .mk (fun h => by simp [hc] at h) hps

lemma plain (hslot : k.slot = 0) : (Ty.plain k).Consistent := by
  refine .mk (fun hc => ?_) (by simp [params])
  rw [nesting, elem?, if_pos hc]
  exact hslot

lemma around (h : t.Consistent) : (Ty.around k t).Consistent := by
  refine .mk (fun hc => ?_) (by simpa [Ty.around, params] using h)
  rw [nesting, elem?, if_pos hc]
  rfl

lemma setOptional (h : t.Consistent) (b : Bool) :
    (t.setKind (t.kind.withOptional b)).Consistent := by
  refine .mk (fun hc => ?_) fun p hp => h.part (by simpa using hp)
  rw [kind_setKind] at hc ⊢
  have helem : (t.setKind (t.kind.withOptional b)).elem? = t.elem? := by
    simp only [elem?, kind_setKind, params_setKind]
    rfl
  rw [nesting, helem]
  exact h.slot hc

lemma withParams (h : t.Consistent) (hps : ∀ p ∈ ps, p.2.Consistent)
    (hlen : ps.length = t.params.length) : (t.withParams ps).Consistent := by
  refine .mk (fun hc => ?_) (by rwa [params_withParams hlen])
  have hcont : t.kind.isElemCont := by rwa [Kind.isElemCont_congr (bits_withParams t ps)] at hc
  rw [nesting, elem?, if_pos hc, params_withParams hlen]
  cases t with
  | plain k =>
    obtain rfl : ps = [] := length_eq_zero_iff.1 hlen
    rw [show (Ty.plain k).withParams [] = .plain k from rfl, h.slot hcont, nesting, elem?,
      if_pos hcont]
    rfl
  | detailed k name qs cs =>
    cases ps with
    | nil =>
      obtain rfl : qs = [] := length_eq_zero_iff.1 hlen.symm
      rw [show (detailed k name [] cs).withParams [] = .detailed k name [] cs from rfl,
        h.slot hcont, nesting, elem?, if_pos hcont]
      rfl
    | cons p ps =>
      cases qs with
      | nil => simp [params] at hlen
      | cons q qs => simp [Ty.withParams, kind, show k.isElemCont from hcont, Kind.around,
          Kind.withSlot]

lemma var {i : Nat} {cs : List Ty} (h : ∀ c ∈ cs, c.Consistent) : (Ty.var i cs).Consistent := by
  refine of_not_isElemCont
    (by rw [Kind.isElemCont_congr (k := .var) (by rw [kind_var]; rfl)]; decide) fun p hp => ?_
  rw [params_var] at hp
  obtain ⟨c, hc, rfl⟩ := List.mem_map.1 hp
  exact h c hc

lemma closed : ClosedClass Consistent where
  part h hp := h.part hp
  setOptional h b := h.setOptional b
  withParams h hps hlen := h.withParams hps hlen
  plain _ hslot := plain hslot
  around _ h := h.around
  obj hps := of_not_isElemCont (show Kind.obj.isElemCont = false by decide) hps
  var h := var h
  alternative h := of_not_isElemCont (show Kind.alt.isElemCont = false by decide)
    (List.forall_mem_map.2 h)

lemma depth_le_size (h : t.Consistent) : t.kind.depth ≤ t.size := by
  induction t using induct with
  | node t ih =>
    rw [Kind.depth]
    split
    · next hc =>
      rw [h.slot hc, nesting]
      split
      · next e he =>
        obtain ⟨p, hp, rfl⟩ := exists_param_of_elem? he
        have hle := ih p hp (h.part hp)
        have hlt := size_lt_of_mem_params hp
        omega
      · exact Nat.zero_le _
    · exact Nat.zero_le _

lemma slot_eq (h : t.Consistent) (he : t.elem? = some e) (hsize : t.size ≤ Kind.maxSlot) :
    t.kind.slot = e.kind.depth + 1 := by
  have hc : t.kind.isElemCont := by
    by_contra hc
    simp [elem?, hc] at he
  obtain ⟨p, hp, rfl⟩ := exists_param_of_elem? he
  have hle := (h.part hp).depth_le_size
  have hlt := size_lt_of_mem_params hp
  rw [h.slot hc, nesting_eq he]
  exact Nat.min_eq_left (by omega)

lemma withParams_eq {name : String} {cs : List (String × Int64)}
    (h : (detailed k name ps cs).Consistent) (hlen : qs.length = ps.length)
    (hdepth : ∀ p ∈ ps.head?, ∀ q ∈ qs.head?, q.2.kind.depth = p.2.kind.depth) :
    (detailed k name ps cs).withParams qs = detailed k name qs cs := by
  cases ps with
  | nil =>
    obtain rfl : qs = [] := length_eq_zero_iff.1 hlen
    rfl
  | cons p ps =>
    cases qs with
    | nil => cases hlen
    | cons q qs =>
      rw [Ty.withParams]
      split
      · next hc =>
        have hslot : k.slot = min (p.2.kind.depth + 1) Kind.maxSlot := by
          have hnesting := h.slot hc
          rwa [nesting, elem?, if_pos (show (detailed k name (p :: ps) cs).kind.isElemCont from hc)]
            at hnesting
        rw [Kind.around, hdepth p rfl q rfl, ← hslot]
        rfl
      · rfl

lemma settled_eq (h : t.Consistent) : t.settled = t := by
  induction t using induct with
  | node t ih =>
    cases hv : t.kind.isVar with
    | true => exact settled_of_isVar hv
    | false =>
      have hparams : t.params.map (fun p => (p.1, p.2.settled)) = t.params := by
        refine (map_congr_left fun p hp => ?_).trans t.params.map_id
        rw [ih p hp (h.part hp)]
        rfl
      rw [settled_of_not_isVar hv, hparams]
      cases t with
      | plain k => rfl
      | detailed k name ps cs =>
        refine h.withParams_eq rfl fun p hp q hq => ?_
        cases hp.symm.trans hq
        rfl

end Consistent

namespace Notated

lemma cont_cases (h : t.Notated) (hc : t.kind.isElemCont) :
    (∃ k o, k.slot = 0 ∧ t = (plain k).optIf o) ∨
    ∃ k e o, (around k e).kind.depth ≤ Kind.maxDepth ∧ t = (around k e).optIf o := by
  have hnot {k : Kind} (hk : k.isElemCont = false) (hbits : t.kind.bits = k.bits) : False := by
    rw [Kind.isElemCont_congr hbits, hk] at hc
    cases hc
  cases h with
  | kind o hk _ => exact .inl ⟨_, o, (bare_named _ hk).2, rfl⟩
  | cont o _ _ _ hdepth => exact .inr ⟨_, _, o, hdepth, rfl⟩
  | var o _ _ _ => exact (hnot (k := .var) (by decide) (by rw [bits_optIf, kind_var]; rfl)).elim
  | self o => exact (hnot (k := .self) (by decide) (bits_optIf _ o)).elim
  | ref o _ _ _ => exact (hnot (k := .ref) (by decide) (bits_optIf _ o)).elim
  | sch o _ _ => exact (hnot (k := .sch) (by decide) (bits_optIf _ o)).elim
  | alt o _ _ _ _ => exact (hnot (k := .alt) (by decide) (bits_optIf _ o)).elim
  | composite o hk hcomp _ _ _ _ _ _ =>
    exact (hnot (isElemCont_composite _ hk hcomp) (bits_optIf _ o)).elim
  | constants o _ hor _ _ =>
    obtain rfl | rfl := hor
    · exact (hnot (k := .flags) (by decide) (bits_optIf _ o)).elim
    · exact (hnot (k := .enum) (by decide) (bits_optIf _ o)).elim

lemma consistent (h : t.Notated) : t.Consistent := by
  induction t using induct with
  | node t ih =>
    have hparts : ∀ p ∈ t.params, p.2.Consistent := fun p hp => ih p hp (h.part hp)
    cases hc : t.kind.isElemCont with
    | false => exact .of_not_isElemCont hc hparts
    | true =>
      obtain ⟨k, o, hslot, rfl⟩ | ⟨k, e, o, _, rfl⟩ := h.cont_cases hc
      · exact Consistent.closed.optIf (.plain hslot) o
      · exact Consistent.closed.optIf
          (.around (hparts ("", e) (by rw [params_optIf]; exact mem_singleton_self _))) o

lemma depth_le (h : t.Notated) : t.kind.depth ≤ Kind.maxDepth := by
  cases hc : t.kind.isElemCont with
  | false => simp [Kind.depth, hc]
  | true =>
    obtain ⟨k, o, hslot, rfl⟩ | ⟨k, e, o, hdepth, rfl⟩ := h.cont_cases hc
    · rw [Kind.depth, if_pos hc, slot_optIf, Ty.kind, hslot]
      exact Nat.zero_le _
    · rwa [depth_optIf]

end Notated

end Ty

namespace Subst

open Ty Solve

/-- Types that are read have consistent slots and nest containers no deeper than the notation
admits. Where bindings and types are consistent, so are the results of replacing and renumbering
variables and of searches, and the bindings that these leave, also where a search fails. -/
theorem consistent_depths :
    (∀ src t, parse src = .ok t → t.Consistent ∧ t.kind.depth ≤ Kind.maxDepth) ∧
    (∀ t e : Ty, t.Consistent → t.elem? = some e → t.size ≤ Kind.maxSlot →
    t.kind.slot = e.kind.depth + 1) ∧
    ∀ (s : Subst) (a b : Ty), s.Binds Consistent → a.Consistent → b.Consistent →
      (s.apply a).Consistent ∧
      (s.instantiate a).1.Consistent ∧ (s.instantiate a).2.Binds Consistent ∧
      (s.instantiateGeneric a).1.Consistent ∧ (s.instantiateGeneric a).2.Binds Consistent ∧
      Keeps (Binds Consistent) (choose a) s Consistent ∧
      Keeps (Binds Consistent) (unify a b) s Consistent ∧
      Keeps (Binds Consistent) (realize a) s Consistent := by
  refine ⟨fun src t h => ?_, fun t e h he hsize => h.slot_eq he hsize, fun s a b hs ha hb => ?_⟩
  · exact ⟨(notated_of_parse h).consistent, (notated_of_parse h).depth_le⟩
  · obtain ⟨hfresh, hbound⟩ := Consistent.closed.instantiate hs ha
    obtain ⟨hgeneric, hbound'⟩ := Consistent.closed.instantiateGeneric hs ha
    exact ⟨Consistent.closed.apply hs ha, hfresh, hbound, hgeneric, hbound',
      Consistent.closed.keeps_choose hs ha,
      Consistent.closed.keeps_unify hs ha hb, Consistent.closed.keeps_realize hs ha⟩

/-- A list whose element is a variable has depth one until the variable is replaced by a container.
-/
theorem consistent_depths_nested : let s : Subst := { size := 1, bindings := [(1, .dict .int)] }
    let t : Ty := .list (.var 1 [])
    s.Binds Consistent ∧ parse "list|'1" = .ok t ∧ t.Consistent ∧ t.kind.slot = 1 ∧
      (s.apply t).Consistent ∧ (s.apply t).kind.slot = 2 ∧
      Keeps (Binds Consistent) (unify t (.list (.dict .num))) s Consistent := by
  intro s t
  have hbinds : s.Binds Consistent := Binds.empty.assign (.around (.plain rfl)) 1
  have hparse : parse "list|'1" = .ok t := by cbv
  obtain ⟨hread, hexact, hkept⟩ := consistent_depths
  have ht := (hread _ _ hparse).1
  obtain ⟨happly, _, _, _, _, _, hunify, _⟩ :=
    hkept s t (.list (.dict .num)) hbinds ht (.around (.around (.plain rfl)))
  exact ⟨hbinds, hparse, ht, hexact t (.var 1 []) ht (by cbv) (by decide), happly,
    hexact (s.apply t) (.dict .int) happly (by cbv) (by decide), hunify⟩

end Subst

end Resolvent
