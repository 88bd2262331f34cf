import Resolvent.Proofs.Subst.History

/-!
# Searches are local

What a type reaches is closed under the bindings: a bound variable within reach leads to no variable
out of reach.
-/

namespace Resolvent.Subst

open Solve

variable {s : Subst} {t : Ty} {ts : List Ty}

lemma Sound.outerVars_subset_reach (h : s.Sound) (t : Ty) : t.outerVars ⊆ s.reach t :=
  fun i hi => h.mem_reach_iff.2 ⟨i, outerVars_subset_links s t hi, .refl⟩

lemma Sound.mem_reach_of_leads (h : s.Sound) {i j : Nat} (hi : i ∈ s.reach t) (hij : s.Leads i j) :
    j ∈ s.reach t := by
  obtain ⟨k, hk, hki⟩ := h.mem_reach_iff.1 hi
  exact h.mem_reach_iff.2 ⟨k, hk, hki.tail hij⟩

def reachSet (s : Subst) (ts : List Ty) : Finset Nat := (ts.flatMap s.reach).toFinset

lemma mem_reachSet {i : Nat} : i ∈ s.reachSet ts ↔ ∃ t ∈ ts, i ∈ s.reach t := by simp [reachSet]

lemma Sound.over_reachSet (h : s.Sound) (ht : t ∈ ts) : t.Over (s.reachSet ts) :=
  fun _ hi => mem_reachSet.2 ⟨t, ht, h.outerVars_subset_reach t hi⟩

lemma Sound.within_reach (h : s.Sound) (ts : List Ty) : Within (s.reachSet ts) s where
  sound := h
  closed i hi b hb j hj := by
    obtain ⟨t, ht, hi⟩ := mem_reachSet.1 hi
    have hij : s.Leads i j := ⟨b, hb, outerVars_subset_links s b hj⟩
    exact mem_reachSet.2 ⟨t, ht, h.mem_reach_of_leads hi hij⟩

/-- A search with this outcome touched none but the variables of a list: the others have the binding
that they had, or none as before, and no bound variable lost its binding. What the search gives, and
what the variables of the list are bound to now, mentions variables of the list only. -/
structure Confined (ids : List Nat) (s : Subst) (run : Except TyError Ty × Subst) : Prop where
  frame : ∀ i, i ∉ ids → run.2.get? i = s.get? i
  bound : ∀ i, (s.get? i).isSome → (run.2.get? i).isSome
  bindings : ∀ i ∈ ids, ∀ b, run.2.get? i = some b → b.outerVars ⊆ ids
  result : ∀ t, run.1 = .ok t → t.outerVars ⊆ ids

lemma Post.confined {good : Ty → Subst → Prop} {run : Except TyError Ty × Subst}
    (h : Post (s.reachSet ts) s good run.1 run.2)
    (hgood : ∀ t s', good t s' → t.Over (s.reachSet ts)) : Confined (ts.flatMap s.reach) s run where
  frame i hi := h.grown.frame i (by simpa [reachSet] using hi)
  bound := h.grown.bound
  bindings i hi b hb j hj := by
    have hj : j ∈ s.reachSet ts := h.grown.within.closed i (by simpa [reachSet] using hi) b hb j hj
    simpa [reachSet] using hj
  result t ht j hj := by
    rw [ht] at h
    have hj : j ∈ s.reachSet ts := hgood t run.2 h.2 j hj
    simpa [reachSet] using hj

/-- Unifying touches only what its two types reach, through their parts, through bindings and
through the constraints of unbound variables, whether it succeeds or fails; and so do choosing and
realizing. -/
theorem search_local (ops : List Op) (a b : Ty) :
    Confined ((after ops).reach a ++ (after ops).reach b) (after ops)
    ((unify a b).exec (after ops)) ∧
      Confined ((after ops).reach a) (after ops) ((choose a).exec (after ops)) ∧
      Confined ((after ops).reach a) (after ops) ((realize a).exec (after ops)) := by
  have h := sound_after ops
  have hone : [a].flatMap (after ops).reach = (after ops).reach a := by simp
  have htwo : [a, b].flatMap (after ops).reach = (after ops).reach a ++ (after ops).reach b := by
    simp
  have hover : a.Over ((after ops).reachSet [a]) := h.over_reachSet (by simp)
  refine ⟨?_, ?_, ?_⟩
  · have ha : a.Over ((after ops).reachSet [a, b]) := h.over_reachSet (by simp)
    have hb : b.Over ((after ops).reachSet [a, b]) := h.over_reachSet (by simp)
    have hunify := (h.within_reach [a, b]).post_unify ha hb
    exact htwo ▸ hunify.confined fun t _ ht => ht.vars_mem
  · exact hone ▸ ((h.within_reach [a]).post_choose hover).confined fun t _ ht => ht.vars_mem
  · exact hone ▸ ((h.within_reach [a]).post_realize hover).confined fun t _ ht => ht

end Resolvent.Subst
