import Resolvent.Proofs.Subst.Termination

/-!
# Substitutions that arise

Every substitution arises from the empty one by asking for variables, binding them, and searching,
where a search that fails leaves what it has bound.
-/

namespace Resolvent.Subst

open Solve

variable {s : Subst} {t : Ty}

/-- The operations on a substitution. -/
inductive Op where
  | newVar (constraints : List Ty)
  | bind (v t : Ty)
  | unify (a b : Ty)
  | choose (t : Ty)
  | realize (t : Ty)
  | instantiate (t : Ty)
  | instantiateGeneric (t : Ty)

/-- What an operation leaves, whether it fails or not. -/
def Op.run (s : Subst) : Op → Subst
  | newVar cs => ((Subst.newVar cs).exec s).2
  | bind v t => ((Subst.bind v t).exec s).2
  | unify a b => ((Subst.unify a b).exec s).2
  | choose t => ((Subst.choose t).exec s).2
  | realize t => ((Subst.realize t).exec s).2
  | instantiate t => (s.instantiate t).2
  | instantiateGeneric t => (s.instantiateGeneric t).2

/-- The substitution after some operations, from the empty one. -/
def after (ops : List Op) : Subst := ops.foldl Op.run {}

lemma Sound.run (h : s.Sound) (op : Op) : (op.run s).Sound := by
  cases op with
  | newVar cs => exact h.grow (n := s.size + 1) (by omega)
  | bind v t =>
    simp only [Op.run, exec_bindTo]
    split
    · next id _ =>
      cases hocc : s.occurs (id + 1) t with
      | true => exact h
      | false => exact h.assign (by simp) hocc
    · exact h
  | unify a b =>
    exact ((h.within_support [a, b]).post_unify (over_support (by simp))
      (over_support (by simp))).grown.within.sound
  | choose t => exact ((h.within_support [t]).post_choose
      (over_support (by simp))).grown.within.sound
  | realize t => exact ((h.within_support [t]).post_realize
      (over_support (by simp))).grown.within.sound
  | instantiate t => exact h.grow (n := s.size + (s.free (s.apply t)).length) (by omega)
  | instantiateGeneric t => exact h.grow (n := s.size + (sortIds t.vars).length) (by omega)

lemma Sound.of_choose (h : s.Sound) {r : Except TyError Ty} {s' : Subst}
    (hr : (choose t).exec s = (r, s')) : s'.Sound := by
  have hrun := h.run (.choose t)
  rwa [Op.run, hr] at hrun

lemma sound_after (ops : List Op) : (after ops).Sound := by
  suffices run : ∀ s : Subst, s.Sound → (ops.foldl Op.run s).Sound from run {} .empty
  induction ops with
  | nil => exact fun _ h => h
  | cons op ops ih => exact fun s h => ih _ (h.run op)

/-! ## Following bindings -/

/-- Where following the bindings goes on from a type: from a bound variable to its binding, and
otherwise to the parts, among them the constraints of an unbound variable. -/
inductive Visits (s : Subst) : Ty → Ty → Prop
  | binding {t b : Ty} {i : Nat} : t.varId? = some i → s.get? i = some b → Visits s b t
  | part {t : Ty} {p : Param} : (∀ i, t.varId? = some i → s.get? i = none) → p ∈ t.params →
      Visits s p.2 t

lemma Sound.wellFounded_visits (h : s.Sound) : WellFounded s.Visits := by
  refine ⟨fun t => ?_⟩
  induction t using h.induct with
  | step t bindings =>
    -- Inside of one type the parts get smaller; they mention no further variables.
    induction t using Ty.induct with
    | node t ih =>
      refine ⟨t, fun u hu => ?_⟩
      cases hu with
      | @binding _ _ i hi hb =>
        obtain ⟨hv, rfl⟩ : t.kind.isVar ∧ t.kind.slot = i := by simpa [Ty.varId?] using hi
        exact bindings t.kind.slot (outerVars_subset_links s t (by simp [Ty.outerVars_of_isVar hv]))
          u hb
      | part hn hp => exact ih _ hp fun i hi => bindings i (links_param_subset hn hp hi)

lemma Sound.walks_eq (h : s.Sound) {n : Nat} (hn : s.size < n) (t : Ty) :
    s.applyN n t = s.apply t ∧ s.reachN n t = s.reach t := by
  obtain ⟨rank, hlt, hdown⟩ := h.exists_rank
  have stable (n : Nat) (hn : s.size ≤ n) (i : Nat) (hi : (s.get? i).isSome) : rank i < n :=
    (hlt i hi).trans_le hn
  induction n, hn using Nat.le_induction with
  | base => exact ⟨rfl, rfl⟩
  | succ n hn ih =>
    obtain ⟨n, rfl⟩ : ∃ m, n = m + 1 := ⟨n - 1, by omega⟩
    rw [← applyN_stable hdown n t fun i _ => stable n (by omega) i,
      ← reachN_stable hdown n t fun i _ => stable n (by omega) i]
    exact ih

/-- Bindings lead nowhere twice, whatever the operations were. So following them ends, with the fuel
at hand and at exactly the variables within reach; applying again changes nothing, and outside of
constraints only unbound variables remain. -/
theorem after_acyclic (ops : List Op) : (after ops).Acyclic ∧ WellFounded (after ops).Visits ∧
      (∀ t n, (after ops).size < n →
        (after ops).applyN n t = (after ops).apply t ∧ (after ops).reachN n t =
        (after ops).reach t) ∧ (∀ t i, ((after ops).occurs i t ↔ (after ops).Reaches t i) ∧
        (i ∈ (after ops).free t ↔ (after ops).Reaches t i ∧ (after ops).get? i = none) ∧
        (i ∈ (after ops).bound t ↔ (after ops).Reaches t i ∧ ((after ops).get? i).isSome)) ∧
      (∀ t, (after ops).apply ((after ops).apply t) = (after ops).apply t) ∧
      ∀ t, ∀ i ∈ ((after ops).apply t).outerVars, (after ops).get? i = none := by
  have h := sound_after ops
  refine ⟨h.acyclic, h.wellFounded_visits, fun t n hn => h.walks_eq hn t, fun t i => ?_,
    h.apply_apply, fun t i hi => ?_⟩
  · exact ⟨h.occurs_iff, h.mem_free_iff, h.mem_bound_iff⟩
  · exact h.get?_of_mem_outerVars_apply hi

/-! ## Searching -/

/-- Unifying, choosing and realizing end, and they say what they found: the plain recursion does not
go deeper than some `n`, whatever would take over there. -/
theorem search_terminates (ops : List Op) (a b : Ty) : (∃ n, ∀ m ≥ n, ∀ stop : Searches,
      ((stop.deep m).unify a b).exec (after ops) = (unify a b).exec (after ops) ∧
      ((stop.deep m).choose a).exec (after ops) = (choose a).exec (after ops) ∧
      (realizeWith (stop.deep m) a).exec (after ops) = (realize a).exec (after ops)) ∧
    ((unify a b).exec (after ops)).1 ≠ .error .exhausted ∧
    ((choose a).exec (after ops)).1 ≠ .error .exhausted ∧
    ((realize a).exec (after ops)).1 ≠ .error .exhausted := by
  have hs := (sound_after ops).within_support [a, b]
  have ha : a.Over ((after ops).support [a, b]) := over_support (by simp)
  have hb : b.Over ((after ops).support [a, b]) := over_support (by simp)
  obtain ⟨hu, l, hl⟩ := settles_along_iff.1 ((behaves hs).unify a b ha hb)
  obtain ⟨hc, m, hm⟩ := settles_along_iff.1 ((behaves hs).choose a ha)
  obtain ⟨hr, n, hn⟩ := settles_along_iff.1 (settles_realizeWith hs ha)
  refine ⟨⟨l + m + n, fun k hk stop => ⟨?_, ?_, ?_⟩⟩, hu.ne_exhausted, hc.ne_exhausted,
    hr.ne_exhausted⟩
  · exact hl k (by omega) stop
  · exact hm k (by omega) stop
  · exact hn k (by omega) stop

end Resolvent.Subst

namespace Resolvent.Solve

def Safe {α : Type} (m : Solve α) : Prop := ∀ s : Subst, s.Sound → (m.exec s).2.Sound

lemma Safe.unify (a b : Ty) : Safe (Subst.unify a b) := fun _ h => h.run (.unify a b)

lemma Safe.realize (t : Ty) : Safe (Subst.realize t) := fun _ h => h.run (.realize t)

end Resolvent.Solve
