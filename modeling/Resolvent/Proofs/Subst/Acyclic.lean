import Resolvent.Proofs.Ty.Variables
import Mathlib.Logic.Relation
import Mathlib.Order.Interval.Finset.Nat

/-!
# Acyclic substitutions

A bound variable leads to the variables that its binding mentions; a constraint counts only while
its variable is unbound, since nothing looks at it later.
-/

namespace Resolvent.Subst

open Relation List Option

variable {s : Subst} {t u : Ty} {i j id n : Nat} {rank : Nat → Nat} {ids : List Nat} {cs : List Ty}

/-- The variables that a type mentions, those in the constraints of unbound variables included. -/
def links (s : Subst) (t : Ty) : List Nat := t.gather fun i => ([i], (s.get? i).isNone)

/-- A bound variable leads to the variables of its binding. -/
def Leads (s : Subst) (i j : Nat) : Prop := ∃ t, s.get? i = some t ∧ j ∈ s.links t

/-- A type reaches the variables that the variables it mentions lead to. -/
def Reaches (s : Subst) (t : Ty) (i : Nat) : Prop := ∃ j ∈ s.links t, ReflTransGen s.Leads j i

/-- No variable leads back to itself. -/
def Acyclic (s : Subst) : Prop := ∀ i, ¬ TransGen s.Leads i i

/-- What holds of every substitution that arises from the empty one. -/
structure Sound (s : Subst) : Prop where
  numbered : ∀ i, (s.get? i).isSome → 0 < i ∧ i ≤ s.size
  distinct : (s.bindings.map (·.1)).Nodup
  acyclic : s.Acyclic

lemma Sound.empty : ({} : Subst).Sound where
  numbered := by simp
  distinct := nodup_nil
  acyclic i h := by
    obtain ⟨j, ⟨t, ht, _⟩, _⟩ := TransGen.head'_iff.1 h
    simp at ht

lemma outerVars_subset_links (s : Subst) (t : Ty) : t.outerVars ⊆ s.links t :=
  Ty.gather_subset_gather (by simp) t

lemma links_param_subset {p : Param} (h : ∀ i, t.varId? = some i → s.get? i = none)
    (hp : p ∈ t.params) : s.links p.2 ⊆ s.links t := by
  intro i hi
  have hmem : i ∈ t.params.flatMap fun p => p.2.gather fun i => ([i], (s.get? i).isNone) :=
    mem_flatMap.2 ⟨p, hp, hi⟩
  cases hv : t.kind.isVar with
  | false => rwa [links, Ty.gather_of_not_isVar hv]
  | true =>
    rw [links, Ty.gather_of_isVar hv]
    simp [h t.kind.slot (by simp [Ty.varId?, hv]), hmem]

/-! ## Ranks -/

lemma Sound.exists_rank (h : s.Sound) :
    ∃ rank : Nat → Nat, (∀ i, (s.get? i).isSome → rank i < s.size) ∧
    ∀ i j, s.Leads i j → (s.get? j).isSome → rank j < rank i := by
  classical
  let below (i : Nat) : Finset Nat :=
    (Finset.Icc 1 s.size).filter fun j => (s.get? j).isSome ∧ TransGen s.Leads i j
  refine ⟨fun i => (below i).card, fun i hi => ?_, fun i j hij hj => ?_⟩
  · obtain ⟨hpos, hle⟩ := h.numbered i hi
    have hsub : below i ⊂ Finset.Icc 1 s.size := by
      refine Finset.ssubset_iff_subset_ne.2 ⟨Finset.filter_subset _ _, fun heq => ?_⟩
      have hmem : i ∈ below i := by rw [heq]; exact Finset.mem_Icc.2 ⟨hpos, hle⟩
      exact h.acyclic i (Finset.mem_filter.1 hmem).2.2
    simpa using Finset.card_lt_card hsub
  · apply Finset.card_lt_card
    refine Finset.ssubset_iff_of_subset (fun k hk => ?_) |>.2 ⟨j, ?_, fun hmem => ?_⟩
    · obtain ⟨hk, hkb, hjk⟩ := Finset.mem_filter.1 hk
      exact Finset.mem_filter.2 ⟨hk, hkb, .head hij hjk⟩
    · obtain ⟨hpos, hle⟩ := h.numbered j hj
      exact Finset.mem_filter.2 ⟨Finset.mem_Icc.2 ⟨hpos, hle⟩, hj, .single hij⟩
    · exact h.acyclic j (Finset.mem_filter.1 hmem).2.2

lemma Sound.induct (h : s.Sound) {motive : Ty → Prop}
    (step : ∀ t, (∀ i ∈ s.links t, ∀ b, s.get? i = some b → motive b) → motive t) (t : Ty) :
    motive t := by
  obtain ⟨rank, _, hdown⟩ := h.exists_rank
  have bounded (n : Nat) : ∀ t, (∀ i ∈ s.links t, (s.get? i).isSome → rank i < n) → motive t := by
    induction n with
    | zero => exact fun t ht => step t fun i hi b hb => absurd (ht i hi (by simp [hb])) (by simp)
    | succ n ih =>
      refine fun t ht => step t fun i hi b hb => ih b fun j hj hjb => ?_
      have hi := ht i hi (by simp [hb])
      have := hdown i j ⟨b, hb, hj⟩ hjb
      omega
  exact step t fun i hi b hb => bounded (rank i) b fun j hj hjb => hdown i j ⟨b, hb, hj⟩ hjb

/-! ## Following bindings without fuel -/

/-- What is known of a variable on the way: its binding's reach, or itself and its constraints. -/
def visit (s : Subst) (reach : Ty → List Nat) (i : Nat) : List Nat × Bool :=
  match s.get? i with
  | some b => (i :: reach b, false)
  | none => ([i], true)

lemma snd_visit (s : Subst) (reach : Ty → List Nat) (i : Nat) :
    (s.visit reach i).2 = (s.get? i).isNone := by
  unfold visit
  cases s.get? i <;> rfl

lemma applyN_stable (hdown : ∀ i j, s.Leads i j → (s.get? j).isSome → rank j < rank i) (n : Nat) :
    ∀ t, (∀ i ∈ s.links t, (s.get? i).isSome → rank i < n) →
    s.applyN (n + 1) t = s.applyN (n + 2) t := by
  induction n with
  | zero =>
    refine fun t ht => Ty.substVars_congr fun i hi => ?_
    have := ht i (outerVars_subset_links s t hi)
    cases hb : s.get? i <;> simp_all
  | succ n ih =>
    refine fun t ht => Ty.substVars_congr fun i hi => ?_
    cases hb : s.get? i with
    | none => rfl
    | some b =>
      have hlt := ht i (outerVars_subset_links s t hi) (by simp [hb])
      simp only [map_some, some.injEq]
      refine ih b fun j hj hjb => ?_
      have := hdown i j ⟨b, hb, hj⟩ hjb
      omega

lemma reachN_stable (hdown : ∀ i j, s.Leads i j → (s.get? j).isSome → rank j < rank i) (n : Nat) :
    ∀ t, (∀ i ∈ s.links t, (s.get? i).isSome → rank i < n) →
    s.reachN (n + 1) t = s.reachN (n + 2) t := by
  have visited (n : Nat) (t : Ty) : t.gather (fun j => ([j], (s.visit (s.reachN n) j).2)) =
    s.links t := by
    simp only [snd_visit, links]
  induction n with
  | zero =>
    refine fun t ht => Ty.gather_congr (v := s.visit (s.reachN 0)) fun i hi => ?_
    cases hb : s.get? i <;> simp_all [visit]
  | succ n ih =>
    refine fun t ht => Ty.gather_congr (v := s.visit (s.reachN (n + 1))) fun i hi => ?_
    rw [visited] at hi
    cases hb : s.get? i with
    | none => simp [visit, hb]
    | some b =>
      have hlt := ht i hi (by simp [hb])
      simp only [visit, hb, Prod.mk.injEq, cons.injEq, true_and, and_true]
      refine ih b fun j hj hjb => ?_
      have := hdown i j ⟨b, hb, hj⟩ hjb
      omega

lemma Sound.apply_eq (h : s.Sound) (t : Ty) :
    s.apply t = t.substVars fun i => (s.get? i).map s.apply := by
  obtain ⟨rank, hlt, hdown⟩ := h.exists_rank
  exact applyN_stable hdown s.size t fun i _ hb => hlt i hb

lemma Sound.reach_eq (h : s.Sound) (t : Ty) : s.reach t = t.gather (s.visit s.reach) := by
  obtain ⟨rank, hlt, hdown⟩ := h.exists_rank
  exact reachN_stable hdown s.size t fun i _ hb => hlt i hb

lemma Sound.mem_reach_iff (h : s.Sound) {t : Ty} {i : Nat} : i ∈ s.reach t ↔ s.Reaches t i := by
  induction t using h.induct with
  | step t ih =>
    rw [h.reach_eq, Ty.mem_gather]
    simp only [snd_visit, Reaches]
    refine exists_congr fun j => and_congr_right fun hj => ?_
    rw [ReflTransGen.cases_head_iff]
    cases hb : s.get? j with
    | none => simp [visit, hb, Leads, eq_comm]
    | some b =>
      have := ih j hj b hb
      simp only [visit, hb, mem_cons, this, Leads, Reaches]
      grind

lemma mem_insertId : i ∈ insertId n ids ↔ i = n ∨ i ∈ ids := by
  induction ids with
  | nil => simp [insertId]
  | cons m ids ih =>
    unfold insertId
    split_ifs <;> grind

lemma mem_sortIds : i ∈ sortIds ids ↔ i ∈ ids := by
  induction ids with
  | nil => simp [sortIds]
  | cons n ids ih => simpa [sortIds, mem_insertId] using or_congr_right ih

lemma Sound.occurs_iff (h : s.Sound) : s.occurs i t ↔ s.Reaches t i := by
  rw [occurs, contains_iff_mem, h.mem_reach_iff]

lemma Sound.mem_free_iff (h : s.Sound) : i ∈ s.free t ↔ s.Reaches t i ∧ s.get? i = none := by
  simp [free, mem_sortIds, h.mem_reach_iff]

lemma Sound.mem_bound_iff (h : s.Sound) : i ∈ s.bound t ↔ s.Reaches t i ∧ (s.get? i).isSome := by
  simp [bound, mem_sortIds, h.mem_reach_iff]

/-! ## Applied types -/

lemma Sound.get?_of_mem_outerVars_apply (h : s.Sound) {t : Ty} {i : Nat}
    (hi : i ∈ (s.apply t).outerVars) : s.get? i = none := by
  induction t using h.induct with
  | step t ih =>
    rw [h.apply_eq, Ty.mem_outerVars_substVars] at hi
    rcases hi with ⟨_, hi⟩ | ⟨j, hj, u, hu, hi⟩
    · simpa using hi
    · obtain ⟨b, hb, rfl⟩ := map_eq_some_iff.1 hu
      exact ih j (outerVars_subset_links s t hj) b hb hi

lemma Sound.settled_apply (h : s.Sound) (t : Ty) : (s.apply t).settled = s.apply t := by
  induction t using h.induct with
  | step t ih =>
    rw [h.apply_eq]
    refine Ty.settled_substVars fun i hi u hu => ?_
    obtain ⟨b, hb, rfl⟩ := map_eq_some_iff.1 hu
    exact ih i (outerVars_subset_links s t hi) b hb

lemma Sound.apply_of_unbound (h : s.Sound) (ht : ∀ i ∈ t.outerVars, s.get? i = none) :
    s.apply t = t.settled := by
  rw [h.apply_eq]
  exact Ty.substVars_congr fun i hi => by simp [ht i hi]

lemma Sound.apply_var_unbound (h : s.Sound) (hi : s.get? i = none) :
    s.apply (.var i cs) = .var i cs := by
  rw [h.apply_of_unbound, Ty.settled_of_isVar (by simp)]
  simpa [Ty.outerVars_of_isVar] using hi

lemma Sound.apply_var_bound (h : s.Sound) (hi : s.get? i = some t) :
    s.apply (.var i cs) = s.apply t := by
  rw [h.apply_eq, Ty.substVars_of_isVar (by simp), Ty.slot_var, hi, Ty.isOpt_var]
  rfl

lemma Sound.apply_apply (h : s.Sound) (t : Ty) : s.apply (s.apply t) = s.apply t := by
  rw [h.apply_of_unbound fun i hi => h.get?_of_mem_outerVars_apply hi, h.settled_apply]

/-! ## Binding -/

lemma links_assign_subset (s : Subst) (id : Nat) (u t : Ty) :
    (s.assign id u).links t ⊆ s.links t := by
  refine Ty.gather_subset_gather (fun i hi => ?_) t
  by_cases h : i = id
  · simp [h] at hi
  · rwa [get?_assign_of_ne u h] at hi

lemma Leads.of_assign (h : (s.assign id u).Leads i j) (hi : i ≠ id) : s.Leads i j := by
  obtain ⟨t, ht, hj⟩ := h
  rw [get?_assign_of_ne u hi] at ht
  exact ⟨t, ht, links_assign_subset s id u t hj⟩

lemma ReflTransGen.of_assign (h : ReflTransGen (s.assign id u).Leads i id) :
    ReflTransGen s.Leads i id := by
  induction h using ReflTransGen.head_induction_on with
  | refl => exact .refl
  | @head i k hik _ ih =>
    by_cases hi : i = id
    · exact hi ▸ .refl
    · exact .head (hik.of_assign hi) ih

lemma TransGen.of_assign {k : Nat} (h : TransGen (s.assign id u).Leads i k) : TransGen s.Leads i k ∨
      ReflTransGen (s.assign id u).Leads i id ∧ ReflTransGen (s.assign id u).Leads id k := by
  induction h using TransGen.head_induction_on with
  | @single i hik =>
    by_cases hi : i = id
    · subst hi
      exact .inr ⟨.refl, .single hik⟩
    · exact .inl (.single (hik.of_assign hi))
  | @head i j hij hjk ih =>
    by_cases hi : i = id
    · subst hi
      exact .inr ⟨.refl, .head hij hjk.to_reflTransGen⟩
    · rcases ih with ih | ⟨hj, hk⟩
      · exact .inl (.head (hij.of_assign hi) ih)
      · exact .inr ⟨.head hij hj, hk⟩

lemma Sound.assign (h : s.Sound) (hid : 0 < id) (hocc : s.occurs id u = false) :
    (s.assign id u).Sound := by
  have fresh : ¬ TransGen (s.assign id u).Leads id id := by
    intro hcyc
    obtain ⟨j, ⟨t, ht, hj⟩, hback⟩ := TransGen.head'_iff.1 hcyc
    obtain rfl : u = t := by simpa using ht
    have hmem : id ∈ s.reach u :=
      h.mem_reach_iff.2 ⟨j, links_assign_subset s id u u hj, ReflTransGen.of_assign hback⟩
    simp [occurs, hmem] at hocc
  constructor
  · intro i hi
    by_cases hii : i = id
    · simp [hii, hid]
    · rw [get?_assign_of_ne u hii] at hi
      have := h.numbered i hi
      simp
      omega
  · exact nodup_cons.2 ⟨by simp, h.distinct.sublist (filter_sublist.map _)⟩
  · intro i hcyc
    rcases TransGen.of_assign hcyc with hold | ⟨hto, hfrom⟩
    · exact h.acyclic i hold
    · rcases reflTransGen_iff_eq_or_transGen.1 hfrom with rfl | hfrom
      · exact fresh hcyc
      · exact fresh (hfrom.trans_left hto)

lemma Sound.grow (h : s.Sound) (hn : s.size ≤ n) : Sound { s with size := n } where
  numbered i hi := by
    have := h.numbered i hi
    exact ⟨this.1, this.2.trans hn⟩
  distinct := h.distinct
  acyclic := h.acyclic

def boundVars (s : Subst) : Finset Nat := (s.bindings.map (·.1)).toFinset

@[simp] lemma mem_boundVars : i ∈ s.boundVars ↔ (s.get? i).isSome := by
  simp [boundVars, get?]

lemma Sound.card_boundVars (h : s.Sound) : s.boundVars.card = s.bindings.length := by
  rw [boundVars, toFinset_card_of_nodup h.distinct, length_map]

end Resolvent.Subst
