import Resolvent.Proofs.Subst.Acyclic
import Resolvent.Subst.Unify

/-!
# How substitutions grow

A search binds variables from a set that is closed under the bindings: the types at hand stay over
that set, bound variables stay bound, and nothing outside of the set changes.
-/

namespace Resolvent

open Option

/-- The variables of a type outside of constraints lie in a set. -/
def Ty.Over (V : Finset Nat) (t : Ty) : Prop := ∀ i ∈ t.outerVars, i ∈ V

namespace Ty

variable {V : Finset Nat} {t : Ty}

@[simp] lemma over_optIf (b : Bool) : (t.optIf b).Over V ↔ t.Over V := by simp [Over]

@[simp] lemma over_deopt : t.deopt.Over V ↔ t.Over V := by simp [Over]

lemma over_of_isVar (h : t.kind.isVar) : t.Over V ↔ t.kind.slot ∈ V := by
  simp [Over, outerVars_of_isVar h]

lemma over_of_not_isVar (h : t.kind.isVar = false) : t.Over V ↔ ∀ p ∈ t.params, p.2.Over V := by
  simp only [Over, outerVars_of_not_isVar h, List.mem_flatMap]
  constructor
  · intro ht p hp i hi
    exact ht i ⟨p, hp, hi⟩
  · rintro ht i ⟨p, hp, hi⟩
    exact ht p hp i hi

end Ty

namespace Subst

variable {V W : Finset Nat} {s s₁ s₂ s₃ : Subst} {t : Ty} {d e : Nat}

/-- A sound substitution whose bindings do not lead out of a set of variables. -/
structure Within (V : Finset Nat) (s : Subst) : Prop where
  sound : s.Sound
  closed : ∀ i ∈ V, ∀ b, s.get? i = some b → b.Over V

lemma Within.apply (h : Within V s) (ht : t.Over V) : (s.apply t).Over V := by
  induction t using h.sound.induct with
  | step t ih =>
    intro i hi
    rw [h.sound.apply_eq, Ty.mem_outerVars_substVars] at hi
    rcases hi with ⟨hi, _⟩ | ⟨j, hj, u, hu, hi⟩
    · exact ht i hi
    · obtain ⟨b, hb, rfl⟩ := map_eq_some_iff.1 hu
      exact ih j (outerVars_subset_links s t hj) b hb (h.closed j (ht j hj) b hb) i hi

/-- The second substitution comes from the first by binding variables of a set, some of them perhaps
anew. -/
structure Grown (V : Finset Nat) (s s' : Subst) : Prop where
  within : Within V s'
  bound : ∀ i, (s.get? i).isSome → (s'.get? i).isSome
  frame : ∀ i, i ∉ V → s'.get? i = s.get? i
  size_le : s.size ≤ s'.size
  size_le_of : ∀ n, s.size ≤ n → (∀ i ∈ V, i ≤ n) → s'.size ≤ n

namespace Grown

lemma refl (h : Within V s) : Grown V s s where
  within := h
  bound _ hi := hi
  frame _ _ := rfl
  size_le := le_rfl
  size_le_of _ hn _ := hn

lemma trans (h : Grown V s₁ s₂) (h' : Grown V s₂ s₃) : Grown V s₁ s₃ where
  within := h'.within
  bound i hi := h'.bound i (h.bound i hi)
  frame i hi := (h'.frame i hi).trans (h.frame i hi)
  size_le := h.size_le.trans h'.size_le
  size_le_of n hn hV := h'.size_le_of n (h.size_le_of n hn hV) hV

lemma assign (h : Within V s) {id : Nat} {u : Ty} (hid : 0 < id) (hV : id ∈ V) (hu : u.Over V)
    (hocc : s.occurs id u = false) : Grown V s (s.assign id u) where
  within := {
    sound := h.sound.assign hid hocc
    closed := by
      intro i hi b hb
      by_cases hii : i = id
      · subst hii
        obtain rfl : u = b := by simpa using hb
        exact hu
      · rw [get?_assign_of_ne u hii] at hb
        exact h.closed i hi b hb }
  bound i hi := by
    by_cases hii : i = id
    · simp [hii]
    · rwa [get?_assign_of_ne u hii]
  frame i hi := by
    refine get?_assign_of_ne u fun hii => ?_
    exact hi (hii ▸ hV)
  size_le := by simp
  size_le_of n hn hV' := by
    have := hV' id hV
    simp
    omega

lemma unbound (h : Grown V s₁ s₂) {i : Nat} (hi : s₂.get? i = none) : s₁.get? i = none := by
  have hb := h.bound i
  cases h₁ : s₁.get? i <;> simp_all

end Grown

lemma Within.of_grown (hV : Within V s) (h : Grown W s s₁) (hWV : W ⊆ V) : Within V s₁ where
  sound := h.within.sound
  closed := by
    intro i hi b hb
    by_cases hiW : i ∈ W
    · exact fun j hj => hWV (h.within.closed i hiW b hb j hj)
    · rw [h.frame i hiW] at hb
      exact hV.closed i hi b hb

lemma Grown.of_subset (h : Grown W s s₁) (hV : Within V s) (hWV : W ⊆ V) : Grown V s s₁ where
  within := hV.of_grown h hWV
  bound := h.bound
  frame i hi := h.frame i fun hiW => hi (hWV hiW)
  size_le := h.size_le
  size_le_of n hn hn' := h.size_le_of n hn fun i hi => hn' i (hWV hi)

/-! ## Calm stretches -/

def Calm (V : Finset Nat) (s s' : Subst) : Prop := ∀ i ∈ V, s.get? i = none → s'.get? i = none

lemma Calm.refl (V : Finset Nat) (s : Subst) : Calm V s s := fun _ _ hi => hi

lemma Calm.trans (h : Calm V s₁ s₂) (h' : Calm V s₂ s₃) : Calm V s₁ s₃ :=
  fun i hi hn => h' i hi (h i hi hn)

lemma Calm.left (h : Calm V s₁ s₃) (hg : Grown V s₂ s₃) : Calm V s₁ s₂ :=
  fun i hi hn => hg.unbound (h i hi hn)

lemma Calm.right (h : Calm V s₁ s₃) (hg : Grown V s₁ s₂) : Calm V s₂ s₃ :=
  fun i hi hn => h i hi (hg.unbound hn)

def unboundIn (V : Finset Nat) (s : Subst) : Finset Nat := V.filter fun i => (s.get? i).isNone

lemma Calm.unboundIn_eq (h : Calm V s₁ s₂) (hg : Grown V s₁ s₂) :
    unboundIn V s₂ = unboundIn V s₁ := by
  ext i
  simp only [unboundIn, Finset.mem_filter, isNone_iff_eq_none, and_congr_right_iff]
  exact fun hi => ⟨hg.unbound, h i hi⟩

lemma card_unboundIn_lt (h : ¬ Calm V s₁ s₂) (hg : Grown V s₁ s₂) :
    (unboundIn V s₂).card < (unboundIn V s₁).card := by
  simp only [Calm, not_forall] at h
  obtain ⟨i, hi, hn, hb⟩ := h
  refine Finset.card_lt_card ((Finset.ssubset_iff_of_subset fun j hj => ?_).2 ⟨i, ?_, ?_⟩)
  · simp only [unboundIn, Finset.mem_filter, isNone_iff_eq_none] at hj ⊢
    exact ⟨hj.1, hg.unbound hj.2⟩
  · simp [unboundIn, hi, hn]
  · simp [unboundIn, hb]

lemma calm_iff (h : s₁.Sound) (hg : Grown V s₁ s₂) :
    Calm V s₁ s₂ ↔ s₂.bindings.length = s₁.bindings.length := by
  have hsub : s₁.boundVars ⊆ s₂.boundVars := by
    intro i hi
    simpa using hg.bound i (by simpa using hi)
  rw [← h.card_boundVars, ← hg.within.sound.card_boundVars]
  constructor
  · intro hc
    congr 1
    refine (hsub.antisymm fun i hi => ?_).symm
    rw [mem_boundVars] at hi ⊢
    by_cases hV : i ∈ V
    · have hn := hc i hV
      cases h₁ : s₁.get? i <;> simp_all
    · rwa [hg.frame i hV] at hi
  · intro hcard i hi hn
    have heq := Finset.eq_of_subset_of_card_le hsub hcard.le
    have : i ∉ s₁.boundVars := by simp [hn]
    rw [heq] at this
    simpa using this

/-! ## Low types -/

/-- A type over the set that, if no variable was bound since `s`, is at most as high as `d` and has
only variables that were unbound in `s`. -/
structure Low (V : Finset Nat) (s : Subst) (d : Nat) (t : Ty) (s' : Subst) : Prop where
  vars_mem : t.Over V
  unbound : Calm V s s' → ∀ i ∈ t.outerVars, s.get? i = none
  height_le : Calm V s s' → t.height ≤ d

namespace Low

lemma mono (h : Low V s d t s₁) (hd : Calm V s s₁ → d ≤ e) : Low V s e t s₁ where
  vars_mem := h.vars_mem
  unbound := h.unbound
  height_le hc := (h.height_le hc).trans (hd hc)

lemma pos (h : Low V s d t s₁) (hc : Calm V s s₁) : 1 ≤ d := t.height_pos.trans_le (h.height_le hc)

lemma grown (h : Low V s d t s₁) (hg : Grown V s₁ s₂) : Low V s d t s₂ where
  vars_mem := h.vars_mem
  unbound hc := h.unbound (hc.left hg)
  height_le hc := h.height_le (hc.left hg)

@[simp] lemma optIf_iff {b : Bool} : Low V s d (t.optIf b) s₁ ↔ Low V s d t s₁ := by
  constructor <;> rintro ⟨ho, hu, hh⟩ <;>
    exact ⟨by simpa using ho, by simpa using hu, by simpa using hh⟩

@[simp] lemma deopt_iff : Low V s d t.deopt s₁ ↔ Low V s d t s₁ := by
  constructor <;> rintro ⟨ho, hu, hh⟩ <;>
    exact ⟨by simpa using ho, by simpa using hu, by simpa using hh⟩

lemma plain {k : Kind} (hk : k.isVar = false) (hd : Calm V s s₁ → 1 ≤ d) :
    Low V s d (.plain k) s₁ where
  vars_mem := (Ty.over_of_not_isVar (t := .plain k) hk).2 (by simp [Ty.params])
  unbound _ i hi := by simp [Ty.outerVars_of_not_isVar (t := .plain k) hk, Ty.params] at hi
  height_le hc := hd hc

lemma param (h : Low V s (d + 1) t s₁) (hv : t.kind.isVar = false) {p : Param} (hp : p ∈ t.params) :
    Low V s d p.2 s₁ where
  vars_mem := (Ty.over_of_not_isVar hv).1 h.vars_mem p hp
  unbound hc i hi := by
    refine h.unbound hc i ?_
    rw [Ty.outerVars_of_not_isVar hv]
    exact List.mem_flatMap.2 ⟨p, hp, hi⟩
  height_le hc := by
    have := Ty.height_lt_of_mem_params hv hp
    have := h.height_le hc
    omega

lemma of_params (hv : t.kind.isVar = false) (h : ∀ p ∈ t.params, Low V s d p.2 s₁) :
    Low V s (d + 1) t s₁ where
  vars_mem := (Ty.over_of_not_isVar hv).2 fun p hp => (h p hp).vars_mem
  unbound hc i hi := by
    rw [Ty.outerVars_of_not_isVar hv] at hi
    obtain ⟨p, hp, hi⟩ := List.mem_flatMap.1 hi
    exact (h p hp).unbound hc i hi
  height_le hc := Ty.height_le_succ fun p hp => (h p hp).height_le hc

lemma apply (h : Within V s) (ht : t.Over V) : Low V s (s.apply t).height (s.apply t) s where
  vars_mem := h.apply ht
  unbound _ _ hi := h.sound.get?_of_mem_outerVars_apply hi
  height_le _ := le_rfl

lemma apply_eq (h : Low V s d t s₁) (hg : Grown V s s₁) (hc : Calm V s s₁) :
    s₁.apply t = t.settled :=
  hg.within.sound.apply_of_unbound fun i hi => hc i (h.vars_mem i hi) (h.unbound hc i hi)

lemma of_not_calm (ht : t.Over V) (hc : ¬ Calm V s s₁) : Low V s d t s₁ :=
  ⟨ht, fun h => absurd h hc, fun h => absurd h hc⟩

lemma of_later (h : Low V s₁ e t s₂) (h₁ : Grown V s s₁) (h₂ : Grown V s₁ s₂)
    (hd : Calm V s s₁ → e ≤ d) : Low V s d t s₂ where
  vars_mem := h.vars_mem
  unbound hc i hi := h₁.unbound (h.unbound (hc.right h₁) i hi)
  height_le hc := (h.height_le (hc.right h₁)).trans (hd (hc.left h₂))

end Low

end Subst

end Resolvent
