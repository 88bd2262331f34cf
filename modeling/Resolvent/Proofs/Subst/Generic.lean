import Resolvent.Proofs.Subst.Renaming
import Resolvent.Proofs.Ty.Concrete
import Mathlib.Data.List.Permutation

/-!
# Copies of generic types

The variables of a generic type are its own, whatever their numbers mean in the substitution at
hand.
-/

namespace Resolvent

open List

/-! ## Increasing numbers -/

lemma pairwise_insertId {n : Nat} {ids : List Nat} (h : ids.Pairwise (· < ·)) :
    (insertId n ids).Pairwise (· < ·) := by
  induction ids with
  | nil => exact pairwise_singleton _ n
  | cons m ids ih =>
    obtain ⟨hm, hids⟩ := pairwise_cons.1 h
    unfold insertId
    split_ifs with hlt heq
    · refine pairwise_cons.2 ⟨fun i hi => ?_, h⟩
      rcases mem_cons.1 hi with rfl | hi
      · exact hlt
      · exact hlt.trans (hm i hi)
    · exact h
    · refine pairwise_cons.2 ⟨fun i hi => ?_, ih hids⟩
      rcases Subst.mem_insertId.1 hi with rfl | hi
      · omega
      · exact hm i hi

lemma pairwise_sortIds (ids : List Nat) : (sortIds ids).Pairwise (· < ·) := by
  induction ids with
  | nil => exact .nil
  | cons n ids ih => exact pairwise_insertId ih

lemma nodup_sortIds (ids : List Nat) : (sortIds ids).Nodup :=
  (pairwise_sortIds ids).imp Nat.ne_of_lt

lemma length_sortIds (ids : List Nat) : (sortIds ids).length = ids.toFinset.card := by
  rw [← toFinset_card_of_nodup (nodup_sortIds ids)]
  congr 1
  ext i
  simp [Subst.mem_sortIds]

lemma bijOn_idxOf {ids : List Nat} (h : ids.Nodup) (n : Nat) :
    Set.BijOn (fun i => n + 1 + ids.idxOf i) {i | i ∈ ids} (Set.Icc (n + 1) (n + ids.length)) := by
  refine ⟨fun i hi => ?_, fun i hi j hj hij => ?_, fun j hj => ?_⟩
  · have := idxOf_lt_length_of_mem hi
    simp only [Set.mem_Icc]
    omega
  · exact (idxOf_inj hi).1 (by simpa using hij)
  · obtain ⟨hge, hle⟩ := hj
    have hlt : j - (n + 1) < ids.length := by omega
    refine ⟨ids[j - (n + 1)], getElem_mem hlt, ?_⟩
    simp only [h.idxOf_getElem]
    omega

/-! ## Renumbered types -/

namespace Ty

variable {t u : Ty} {f : Nat → Nat} {σ : Nat → Option Nat}

/-- The second type is a copy of the first under other numbers. A variable has its new number, its
flag, and copies of the constraints that it has where it stands. All else is kept, but for the depth
of a container with an element, which is that of the element. -/
inductive Copies (f : Nat → Nat) : Ty → Ty → Prop
  | var {t u : Ty} : t.kind.isVar → u.varId? = some (f t.kind.slot) → u.isOpt = t.isOpt →
    Forall₂ (Copies f) t.members u.members → Copies f t u
  | node {t u : Ty} : t.kind.isVar = false → u.kind.bits = t.kind.bits → u.isOpt = t.isOpt →
    (t.elem? = none → u.kind.slot = t.kind.slot) → u.isDetailed = t.isDetailed → u.name = t.name →
    u.consts = t.consts → u.params.map (·.1) = t.params.map (·.1) →
    Forall₂ (Copies f) (t.params.map (·.2)) (u.params.map (·.2)) → Copies f t u

/-- The type is as the constructors make it: a container has the depth that its element calls for,
and a variable has a number, a flag and constraints and nothing else. -/
inductive Built : Ty → Prop
  | mk {t : Ty} : t.withParams t.params = t →
      (t.kind.isVar → t = (var t.kind.slot t.members).optIf t.isOpt) →
    (∀ p ∈ t.params, Built p.2) → Built t

lemma members_of_isVar (h : t.kind.isVar) : t.members = t.params.map (·.2) := by simp [members, h]

lemma withParams_view (t : Ty) (ps : List Param) : (t.withParams ps).isOpt = t.isOpt ∧
    (t.elem? = none → (t.withParams ps).kind.slot = t.kind.slot) ∧
      (t.withParams ps).isDetailed = t.isDetailed ∧ (t.withParams ps).name = t.name ∧
      (t.withParams ps).consts = t.consts := by
  unfold withParams
  split
  · next k name q qs cs n p ps =>
    refine ⟨?_, fun hnone => ?_, rfl, rfl, rfl⟩
    · simp only [isOpt]
      split <;> rfl
    · cases hk : k.isElemCont with
      | false => simp [kind]
      | true => simp [elem?, kind, params, hk] at hnone
  · exact ⟨rfl, fun _ => rfl, rfl, rfl, rfl⟩

lemma isOpt_optIf_var (i : Nat) (cs : List Ty) (o : Bool) : ((var i cs).optIf o).isOpt = o := by
  cases o with
  | false => exact isOpt_var i cs
  | true => simp [optIf, opt, isOpt, Kind.opt, Kind.withOptional]

lemma copies_renumber (h : ∀ i ∈ t.vars, σ i = some (f i)) : Copies f t (t.renumber σ) := by
  induction t using induct with
  | node t ih =>
    have hparts (h : ∀ i ∈ t.params.flatMap fun p => p.2.vars, σ i = some (f i)) :
        Forall₂ (Copies f) (t.params.map (·.2)) (t.params.map fun p => p.2.renumber σ) := by
      rw [forall₂_map_left_iff, forall₂_map_right_iff, forall₂_same]
      exact fun p hp => ih p hp fun i hi => h i (mem_flatMap.2 ⟨p, hp, hi⟩)
    cases hv : t.kind.isVar with
    | true =>
      rw [vars, gather_of_isVar hv] at h
      have hslot : σ t.kind.slot = some (f t.kind.slot) := h _ (by simp)
      rw [renumber_of_isVar hv hslot]
      refine .var hv (by simp [varId?]) (isOpt_optIf_var _ _ _) ?_
      rw [members_of_isVar hv, members_of_isVar (by simp), params_optIf, params_var]
      simpa using hparts fun i hi => h i (mem_append_right _ hi)
    | false =>
      rw [vars, gather_of_not_isVar hv] at h
      obtain ⟨hopt, hslot, hdetailed, hname, hconsts⟩ :=
        t.withParams_view (t.params.map fun p => (p.1, p.2.renumber σ))
      rw [renumber_of_not_isVar hv]
      refine .node hv (bits_withParams _ _) hopt hslot hdetailed hname hconsts (by simp) ?_
      simpa using hparts h

lemma Built.renumber_eq (ht : t.Built) (h : ∀ i ∈ t.vars, σ i = some (f i)) :
    t.renumber σ = t.rename f := by
  induction t using induct with
  | node t ih =>
    obtain ⟨hdepth, hvar, hbuilt⟩ := ht
    have hparts (h : ∀ i ∈ t.params.flatMap fun p => p.2.vars, σ i = some (f i)) :
        ∀ p ∈ t.params, p.2.renumber σ = p.2.rename f :=
      fun p hp => ih p hp (hbuilt p hp) fun i hi => h i (mem_flatMap.2 ⟨p, hp, hi⟩)
    cases hv : t.kind.isVar with
    | true =>
      rw [vars, gather_of_isVar hv] at h
      have hslot : σ t.kind.slot = some (f t.kind.slot) := h _ (by simp)
      have hrename := congrArg (rename f) (hvar hv)
      rw [← optIf_rename, var_rename, members_of_isVar hv, List.map_map] at hrename
      rw [renumber_of_isVar hv hslot, hrename,
        map_congr_left (hparts fun i hi => h i (mem_append_right _ hi))]
      rfl
    | false =>
      rw [vars, gather_of_not_isVar hv] at h
      have hnamed := map_congr_left fun p hp => congrArg (Prod.mk p.1) (hparts h p hp)
      have hrename := congrArg (rename f) hdepth
      rw [withParams_rename, withParams_rename_of_not_isVar (g := id) hv (by simp), rename_id]
        at hrename
      rw [renumber_of_not_isVar hv, hnamed, hrename]

lemma Notated.eq_var (h : t.Notated) (hv : t.kind.isVar) :
    ∃ id cs o, t = (Ty.var id cs).optIf o := by
  have hnot {u : Ty} {o : Bool} (hu : u.kind.isVar = false) (hv : (u.optIf o).kind.isVar) :
      ∃ id cs o', u.optIf o = (Ty.var id cs).optIf o' := by simp [hu] at hv
  cases h with
  | kind o hk _ => exact hnot (isVar_named _ hk).1 hv
  | var o _ _ _ => exact ⟨_, _, o, rfl⟩
  | self o => exact hnot rfl hv
  | ref o _ _ _ => exact hnot rfl hv
  | sch o _ _ => exact hnot rfl hv
  | cont o hk _ _ _ => exact hnot (isVar_named _ hk).1 hv
  | alt o _ _ _ _ => exact hnot rfl hv
  | composite o hk _ _ _ _ _ _ _ => exact hnot (isVar_named _ hk).1 hv
  | constants o hk _ _ _ => exact hnot (isVar_named _ hk).1 hv

lemma Notated.built (h : t.Notated) : t.Built := by
  induction t using induct with
  | node t ih =>
    refine .mk ?_ (fun hv => ?_) fun p hp => ih p hp (h.part hp)
    · cases hv : t.kind.isVar with
      | false => exact h.depth hv
      | true =>
        refine withParams_params (Bool.eq_false_iff.2 fun hcont => ?_)
        simp [Kind.isVar_eq_false_of_isElemCont hcont] at hv
    · obtain ⟨id, cs, o, rfl⟩ := h.eq_var hv
      rw [members_of_isVar hv, params_optIf, params_var, slot_optIf, slot_var, isOpt_optIf_var,
        List.map_map]
      exact congrArg (fun cs => (Ty.var id cs).optIf o) (List.map_id cs).symm

end Ty

namespace Subst

open Ty

lemma exists_bijOn_sortIds (n : Nat) (ids : List Nat) :
    ∃ f : Nat → Nat, Set.BijOn f {i | i ∈ ids} (Set.Icc (n + 1) (n + ids.toFinset.card)) ∧
      ∀ i ∈ ids, ((sortIds ids).idxOf? i).map (n + 1 + ·) = some (f i) := by
  refine ⟨fun i => n + 1 + (sortIds ids).idxOf i, ?_, fun i hi => ?_⟩
  · have hbij := bijOn_idxOf (nodup_sortIds ids) n
    simpa only [length_sortIds, mem_sortIds] using hbij
  · cases hidx : (sortIds ids).idxOf? i with
    | none => exact absurd (mem_sortIds.2 hi) (idxOf?_eq_none_iff.1 hidx)
    | some j => simp [idxOf_eq_getD_idxOf?, hidx]

/-- A generic type gets a number of its own for each of its variables, the next ones that there are.
Its copy differs from it in the numbers alone, and the substitution in having so many more
variables, which are unbound. -/
theorem instantiateGeneric_fresh (ops : List Op) (t : Ty) : let s := after ops
    let k := t.vars.toFinset.card
    let new := Set.Icc (s.size + 1) (s.size + k)
    let copy := s.instantiateGeneric t
    ∃ f : Nat → Nat, Set.BijOn f {i | i ∈ t.vars} new ∧ Copies f t copy.1 ∧
    (t.Built → copy.1 = t.rename f) ∧
      (∀ i ∈ new, copy.2.get? i = none) ∧ (∀ i, copy.2.get? i = s.get? i) ∧
      copy.2.size = s.size + k := by
  intro s k new copy
  obtain ⟨f, hbij, hf⟩ := exists_bijOn_sortIds s.size t.vars
  refine ⟨f, hbij, copies_renumber hf, fun ht => ht.renumber_eq hf, fun i hi => ?_,
    fun _ => rfl, ?_⟩
  · by_contra hbound
    have hle : i ≤ s.size := ((sound_after ops).numbered i (Option.isSome_iff_ne_none.2 hbound)).2
    have hlt : s.size + 1 ≤ i := hi.1
    omega
  · exact congrArg (s.size + ·) (length_sortIds t.vars)

/-- A signature in which a variable has constraints in one place and none in another. -/
def selector : Ty :=
  .form "pick" [("from", .list (var 3 [.num, .var 1 []])), ("or?", (var 1 []).opt),
    ("", .var 3 [.dict (.var 4 [])])]

/-- The first number is bound in the substitution, the others are among the new ones. -/
theorem instantiateGeneric_fresh_selector :
    let s := after [.newVar [], .bind (.var 1 []) .str, .newVar [.num]]
    parse "(form \"pick\" +from list|('3 num '1) +or? '1? ('3 dict|'4))" = .ok selector ∧
    selector.Built ∧ s.size = 2 ∧ selector.vars.toFinset = {1, 3, 4} ∧
    ∃ f : Nat → Nat, Set.BijOn f {i | i ∈ selector.vars} (Set.Icc 3 5) ∧
      (s.instantiateGeneric selector).1 = selector.rename f ∧
      (s.instantiateGeneric selector).2.size = 5 := by
  intro s
  have hparse : parse "(form \"pick\" +from list|('3 num '1) +or? '1? ('3 dict|'4))" =
    .ok selector := by cbv
  have hvars : selector.vars.toFinset = {1, 3, 4} := by decide
  have hcard : selector.vars.toFinset.card = 3 := by rw [hvars]; rfl
  have hbuilt := (notated_of_parse hparse).built
  obtain ⟨f, hbij, -, hcopy, -, -, hsize⟩ :=
    instantiateGeneric_fresh [.newVar [], .bind (.var 1 []) .str, .newVar [.num]] selector
  rw [hcard] at hbij hsize
  exact ⟨hparse, hbuilt, rfl, hvars, f, hbij, hcopy hbuilt, hsize⟩

end Subst

end Resolvent
