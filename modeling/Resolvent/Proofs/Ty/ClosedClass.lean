import Resolvent.Proofs.Ty.Alternative
import Resolvent.Proofs.Ty.Variables

/-!
# Closed classes of types

Types are taken apart and made anew all the time: marks are set, variables are replaced, candidates
are listed, containers are built around elements.
-/

namespace Resolvent.Ty

open List

/-- The class has the parts of its types. It keeps its types where the mark is set or the parts are
replaced, and it has what is built around them: containers, objects, variables and alternatives. -/
structure ClosedClass (P : Ty → Prop) : Prop where
  part : ∀ {t : Ty} {p : Param}, P t → p ∈ t.params → P p.2
  setOptional : ∀ {t : Ty}, P t → ∀ b, P (t.setKind (t.kind.withOptional b))
  withParams : ∀ {t : Ty} {ps : List Param}, P t → (∀ p ∈ ps, P p.2) → ps.length = t.params.length →
  P (t.withParams ps)
  plain : ∀ {k : Kind}, k.isCtx = false → k.slot = 0 → P (.plain k)
  around : ∀ {k : Kind} {t : Ty}, k.isCtx = false → P t → P (.around k t)
  obj : ∀ {name : String} {ps : List Param}, (∀ p ∈ ps, P p.2) → P (.obj name ps)
  var : ∀ {i : Nat} {cs : List Ty}, (∀ c ∈ cs, P c) → P (.var i cs)
  alternative : ∀ {cs : List Ty}, (∀ c ∈ cs, P c) →
  P (.detailed .alt "" (cs.map fun c => ("", c)) [])

namespace ClosedClass

variable {P : Ty → Prop} {t u : Ty} {ts us : List Ty} (hP : ClosedClass P)
include hP

lemma deopt (h : P t) : P t.deopt := hP.setOptional h false

lemma optIf (h : P t) (b : Bool) : P (t.optIf b) := by
  cases b with
  | false => exact h
  | true => exact hP.setOptional h true

lemma members (h : P t) (hu : u ∈ t.members) : P u := by
  unfold Ty.members at hu
  split at hu
  · obtain ⟨p, hp, rfl⟩ := mem_map.1 hu
    exact hP.part h hp
  · cases hu

lemma elem? (h : P t) (hu : t.elem? = some u) : P u := by
  obtain ⟨p, hp, rfl⟩ := exists_param_of_elem? hu
  exact hP.part h hp

lemma alt (h : ∀ t ∈ ts, P t) : P (Ty.alt ts) :=
  alt_induct h (fun _ ht _ _ hp => hP.part ht hp) (fun _ => id) fun _ => hP.alternative

lemma substVars {σ : Nat → Option Ty} (hσ : ∀ i u, σ i = some u → P u) (h : P t) :
    P (t.substVars σ) := by
  induction t using induct with
  | node t ih =>
    cases hv : t.kind.isVar with
    | true =>
      rw [substVars_of_isVar hv]
      split
      · next u hu => exact hP.optIf (hσ _ u hu) _
      · exact h
    | false =>
      rw [substVars_of_not_isVar hv]
      exact hP.withParams h (forall_mem_map.2 fun p hp => ih p hp (hP.part h hp)) (by simp)

lemma renumber {σ : Nat → Option Nat} (h : P t) : P (t.renumber σ) := by
  induction t using induct with
  | node t ih =>
    have hparts : ∀ p ∈ t.params, P (p.2.renumber σ) := fun p hp => ih p hp (hP.part h hp)
    by_cases hnone : t.kind.isVar → σ t.kind.slot = none
    · rw [renumber_of_none hnone]
      exact hP.withParams h (forall_mem_map.2 hparts) (by simp)
    · obtain ⟨hv, hsome⟩ := Classical.not_imp.1 hnone
      obtain ⟨i, hi⟩ := Option.ne_none_iff_exists'.1 hsome
      rw [renumber_of_isVar hv hi]
      exact hP.optIf (hP.var (forall_mem_map.2 hparts)) _

end ClosedClass

end Resolvent.Ty
