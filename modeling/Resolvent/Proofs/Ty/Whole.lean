import Resolvent.Proofs.Subst.Step
import Resolvent.Proofs.Ty.ClosedClass
import Resolvent.Session.Resolve

/-!
# Whole types

A type is whole if no part of it is a reference and every container has the depth that its element
calls for.
-/

namespace Resolvent

namespace Kind

/-- Neither a reference to a definition nor one to a schema. -/
def NoRef (k : Kind) : Prop := (k.isSch || k.isRef) = false

instance : DecidablePred NoRef :=
  fun k => inferInstanceAs (Decidable ((k.isSch || k.isRef) = false))

lemma NoRef.of_bits {j k : Kind} (h : k.NoRef) (hbits : j.bits = k.bits) : j.NoRef := by
  simpa [NoRef, isSch, isRef, hbits] using h

lemma NoRef.of_isCtx {k : Kind} (h : k.isCtx = false) : k.NoRef := by
  have hne (j : Kind) (hj : j.isCtx) : (k.bits == j.bits) = false := by
    refine beq_eq_false_iff_ne.2 fun hbits => ?_
    rw [isCtx, meets, hbits] at h
    simp [isCtx, meets, h] at hj
  simp only [NoRef, isSch, isRef, hne .sch rfl, hne .ref rfl, Bool.or_false]

end Kind

namespace Ty

variable {t u : Ty} {ts : List Ty} {ps : List Param} {k : Kind} {name : String}
  {cs : List (String × Int64)}

/-- No part is a reference, and containers have the depth that their elements call for. -/
inductive Whole : Ty → Prop
  | mk {t : Ty} : t.kind.NoRef → (∀ p ∈ t.params, Whole p.2) → t.withParams t.params = t → Whole t

mutual

/-- Decides whether a type is whole. -/
def isWhole : Ty → Bool
  | .plain k => decide k.NoRef
  | .detailed k name ps cs => decide k.NoRef && areWhole ps &&
      (withParams (.detailed k name ps cs) ps).kind == k

def areWhole : List (String × Ty) → Bool
  | [] => true
  | (_, t) :: ps => t.isWhole && areWhole ps

end

lemma areWhole_iff : areWhole ps ↔ ∀ p ∈ ps, p.2.isWhole := by
  induction ps with
  | nil => simp [areWhole]
  | cons p ps ih => simp [areWhole, ih]

lemma isWhole_iff_parts : t.isWhole ↔ t.kind.NoRef ∧ (∀ p ∈ t.params, p.2.isWhole) ∧
    t.withParams t.params = t := by
  cases t with
  | plain k => simp [isWhole, kind, params, withParams]
  | detailed k name ps cs =>
    have hdepth : (withParams (.detailed k name ps cs) ps).kind = k ↔
        withParams (.detailed k name ps cs) ps = .detailed k name ps cs := by
      cases ps <;> simp [withParams, kind]
    rw [isWhole, Bool.and_eq_true, Bool.and_eq_true, areWhole_iff, beq_iff_eq, hdepth,
      decide_eq_true_eq, and_assoc]
    rfl

lemma isWhole_iff : t.isWhole ↔ t.Whole := by
  induction t using induct with
  | node t ih =>
    rw [isWhole_iff_parts]
    constructor
    · rintro ⟨hk, hps, hdepth⟩
      exact .mk hk (fun p hp => (ih p hp).1 (hps p hp)) hdepth
    · rintro ⟨hk, hps, hdepth⟩
      exact ⟨hk, fun p hp => (ih p hp).2 (hps p hp), hdepth⟩

instance : DecidablePred Whole := fun _ => decidable_of_iff _ isWhole_iff

lemma withParams_around (k : Kind) (t : Ty) :
    (around k t).withParams (around k t).params = around k t := by
  have hdepth : (if (k.around t.kind).isElemCont then (k.around t.kind).around t.kind
    else k.around t.kind) = k.around t.kind := by
    split <;> rfl
  exact congrArg (fun k => detailed k "" [("", t)] []) hdepth

lemma withParams_setOptional (h : t.withParams t.params = t) (b : Bool) :
    (t.setKind (t.kind.withOptional b)).withParams t.params =
    t.setKind (t.kind.withOptional b) := by
  cases t with
  | plain k => rfl
  | detailed k name ps cs =>
    cases ps with
    | nil => rfl
    | cons p ps =>
      simp only [withParams, params, detailed.injEq, and_true] at h
      simp only [setKind, withParams, params, kind, detailed.injEq, and_true]
      split at h
      · next hc =>
        rw [if_pos (show (k.withOptional b).isElemCont from hc)]
        exact congrArg (·.withOptional b) h
      · next hc => rw [if_neg (show ¬ (k.withOptional b).isElemCont from hc)]

namespace Whole

lemma noRef (h : t.Whole) : t.kind.NoRef := by
  cases h with
  | mk hk _ _ => exact hk

lemma part (h : t.Whole) {p : Param} (hp : p ∈ t.params) : p.2.Whole := by
  cases h with
  | mk _ hps _ => exact hps p hp

lemma depth (h : t.Whole) : t.withParams t.params = t := by
  cases h with
  | mk _ _ hdepth => exact hdepth

lemma plain (hk : k.NoRef) : (Ty.plain k).Whole := .mk hk (by simp [params]) rfl

lemma detailed (hk : k.NoRef) (hcont : k.isElemCont = false) (hps : ∀ p ∈ ps, p.2.Whole) :
    (Ty.detailed k name ps cs).Whole := by
  refine .mk hk hps ?_
  cases ps <;> simp [withParams, params, hcont]

lemma withParams (hk : t.kind.NoRef) (hps : ∀ p ∈ ps, p.2.Whole)
    (hlen : ps.length = t.params.length) : (t.withParams ps).Whole := by
  refine .mk (hk.of_bits (bits_withParams t ps)) ?_ ?_
  · rwa [params_withParams hlen]
  · rw [params_withParams hlen, withParams_withParams]

lemma around (hk : k.NoRef) (h : t.Whole) : (Ty.around k t).Whole :=
  .mk (hk.of_bits rfl) (by simpa [Ty.around, params] using h) (withParams_around k t)

lemma setOptional (h : t.Whole) (b : Bool) : (t.setKind (t.kind.withOptional b)).Whole := by
  refine .mk (h.noRef.of_bits (by simp [Kind.withOptional])) (fun p hp =>
    h.part (by simpa using hp)) ?_
  rw [params_setKind, withParams_setOptional h.depth]

lemma result (h : t.Whole) : t.result.Whole := by
  unfold Ty.result
  cases hl : t.params.getLast? with
  | none => exact plain rfl
  | some p => exact h.part (List.mem_of_getLast? hl)

lemma var {i : Nat} (h : ∀ t ∈ ts, t.Whole) : (Ty.var i ts).Whole := by
  unfold Ty.var
  split
  · exact plain rfl
  · refine detailed rfl (show Kind.var.isElemCont = false by decide) ?_
    simpa using h

lemma closed : ClosedClass Whole where
  part h hp := h.part hp
  setOptional h b := h.setOptional b
  withParams h hps hlen := withParams h.noRef hps hlen
  plain hk _ := plain (.of_isCtx hk)
  around hk h := around (.of_isCtx hk) h
  obj hps := detailed rfl rfl hps
  var h := var h
  alternative h := detailed rfl rfl (List.forall_mem_map.2 h)

lemma elem? (h : t.Whole) (hu : t.elem? = some u) : u.Whole := closed.elem? h hu

end Whole

end Ty

namespace Session

open Ty

variable {find : String → Except Failure (Option Ty)} {t : Ty} {ps : List Param}

lemma resolveParamRefs_of_forall (h : ∀ p ∈ ps, resolveRefs find p.2 = .ok (some p.2)) :
    resolveParamRefs find ps = .ok (ps, true) := by
  induction ps with
  | nil => rfl
  | cons p ps ih =>
    obtain ⟨n, t⟩ := p
    rw [resolveParamRefs, h (n, t) (by simp), ih fun p hp => h p (by simp [hp])]
    rfl

lemma resolveRefs_of_whole (h : t.Whole) : resolveRefs find t = .ok (some t) := by
  induction t using induct with
  | node t ih =>
    cases t with
    | plain k =>
      have hk : (k.isSch || k.isRef) = false := h.noRef
      rw [resolveRefs, hk]
      rfl
    | detailed k name ps cs =>
      have hk : (k.isSch || k.isRef) = false := h.noRef
      have hps : resolveParamRefs find ps = .ok (ps, true) :=
        resolveParamRefs_of_forall fun p hp => ih p hp (h.part hp)
      rw [resolveRefs, hk, hps]
      exact congrArg (Except.ok ∘ some) h.depth

end Session

end Resolvent
