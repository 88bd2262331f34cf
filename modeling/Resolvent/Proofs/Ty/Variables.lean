import Resolvent.Subst.Basic
import Mathlib.Algebra.Order.BigOperators.Group.List
import Mathlib.Algebra.Order.Group.Nat
import Mathlib.Data.List.Basic

/-!
# The variables of types

What walking a type comes to, said on its kind and its parameters alone.
-/

namespace Resolvent.Ty

open List

variable {t : Ty} {σ τ : Nat → Option Ty} {visit : Nat → List Nat × Bool}
  {ps : List Param} {i n : Nat}

lemma induct {motive : Ty → Prop} (node : ∀ t : Ty, (∀ p ∈ t.params, motive p.2) → motive t)
    (t : Ty) : motive t :=
  @rec motive (fun ps => ∀ p ∈ ps, motive p.2) (fun p => motive p.2) (fun k =>
    node (.plain k) (by simp [params])) (fun k name ps cs ih => node (.detailed k name ps cs) ih)
    (by simp) (fun p ps hp hps => by simpa using ⟨hp, fun a b h => hps (a, b) h⟩) (fun _ _ h => h) t

/-! ## Kinds and parameters of a changed type -/

@[simp] lemma isVar_withSlot (k : Kind) (n : Nat) : (k.withSlot n).isVar = k.isVar := rfl
@[simp] lemma isVar_withOptional (k : Kind) (b : Bool) : (k.withOptional b).isVar = k.isVar := rfl
@[simp] lemma isVar_around (k j : Kind) : (k.around j).isVar = k.isVar := rfl

@[simp] lemma params_optIf (t : Ty) (b : Bool) : (t.optIf b).params = t.params := by
  cases b <;> simp [optIf, opt]

@[simp] lemma bits_optIf (t : Ty) (b : Bool) : (t.optIf b).kind.bits = t.kind.bits := by
  cases b <;> simp [optIf, opt, Kind.opt, Kind.withOptional]

@[simp] lemma slot_optIf (t : Ty) (b : Bool) : (t.optIf b).kind.slot = t.kind.slot := by
  cases b <;> simp [optIf, opt, Kind.opt, Kind.withOptional]

@[simp] lemma isVar_optIf (t : Ty) (b : Bool) : (t.optIf b).kind.isVar = t.kind.isVar := by
  simp [Kind.isVar]

@[simp] lemma params_deopt (t : Ty) : t.deopt.params = t.params := by simp [deopt]

@[simp] lemma isVar_deopt (t : Ty) : t.deopt.kind.isVar = t.kind.isVar := by
  simp [deopt, Kind.deopt]

@[simp] lemma bits_withParams (t : Ty) (ps : List Param) :
    (t.withParams ps).kind.bits = t.kind.bits := by
  unfold withParams
  split
  · simp only [kind]
    split <;> rfl
  · rfl

@[simp] lemma isVar_withParams (t : Ty) (ps : List Param) :
    (t.withParams ps).kind.isVar = t.kind.isVar := by
  simp [Kind.isVar]

lemma params_withParams (h : ps.length = t.params.length) : (t.withParams ps).params = ps := by
  cases t with
  | plain k => simpa [params, withParams] using h
  | detailed k name qs cs =>
    cases qs <;> cases ps <;> simp_all [params, withParams]

@[simp] lemma params_withParams_map (t : Ty) (f : Param → Param) :
    (t.withParams (t.params.map f)).params = t.params.map f :=
  params_withParams (by simp)

lemma kind_var (i : Nat) (cs : List Ty) : (var i cs).kind = Kind.var.withSlot i := by
  unfold var
  split <;> rfl

@[simp] lemma isVar_var (i : Nat) (cs : List Ty) : (var i cs).kind.isVar := by rw [kind_var]; rfl

@[simp] lemma slot_var (i : Nat) (cs : List Ty) : (var i cs).kind.slot = i := by rw [kind_var]; rfl

@[simp] lemma isOpt_var (i : Nat) (cs : List Ty) : (var i cs).isOpt = false := by
  rw [isOpt, kind_var]; rfl

@[simp] lemma varId?_var (i : Nat) (cs : List Ty) : (var i cs).varId? = some i := by simp [varId?]

lemma exists_param_of_elem? {x : Ty} (h : t.elem? = some x) : ∃ p ∈ t.params, p.2 = x := by
  unfold elem? at h
  split at h
  · obtain ⟨p, hp, rfl⟩ := Option.map_eq_some_iff.1 h
    exact ⟨p, mem_of_mem_head? hp, rfl⟩
  · cases h

/-! ## Walking -/

lemma substParams_eq_map (σ : Nat → Option Ty) (ps : List Param) :
    substParams σ ps = ps.map fun p => (p.1, p.2.substVars σ) := by
  induction ps with
  | nil => rfl
  | cons p ps ih => simp [substParams, ih]

lemma gatherParams_eq_flatMap (visit : Nat → List Nat × Bool) (ps : List Param) :
    gatherParams visit ps = ps.flatMap fun p => p.2.gather visit := by
  induction ps with
  | nil => rfl
  | cons p ps ih => simp [gatherParams, ih]

lemma substVars_of_isVar (h : t.kind.isVar) : t.substVars σ = match σ t.kind.slot with
      | some u => u.optIf t.isOpt
      | none => t := by
  cases hσ : σ t.kind.slot <;> cases t <;> simp_all only [substVars, kind, isOpt, ↓reduceIte]

lemma substVars_of_not_isVar (h : t.kind.isVar = false) :
    t.substVars σ = t.withParams (t.params.map fun p => (p.1, p.2.substVars σ)) := by
  cases t with
  | plain k => exact if_neg (Bool.eq_false_iff.1 h)
  | detailed k name ps cs =>
    rw [substVars, substParams_eq_map]
    exact if_neg (Bool.eq_false_iff.1 h)

lemma renumberParams_eq_map (σ : Nat → Option Nat) (ps : List Param) :
    renumberParams σ ps = ps.map fun p => (p.1, p.2.renumber σ) := by
  induction ps with
  | nil => rfl
  | cons p ps ih => simp [renumberParams, ih]

lemma renumber_of_none {σ : Nat → Option Nat} (h : t.kind.isVar → σ t.kind.slot = none) :
    t.renumber σ = t.withParams (t.params.map fun p => (p.1, p.2.renumber σ)) := by
  cases t with
  | plain k =>
    rw [renumber]
    split
    · next hv =>
      have hnone : σ k.slot = none := h hv
      rw [hnone]
      rfl
    · rfl
  | detailed k name ps cs =>
    rw [renumber, renumberParams_eq_map]
    split
    · next hv =>
      have hnone : σ k.slot = none := h hv
      rw [hnone]
      rfl
    · rfl

lemma renumber_of_not_isVar {σ : Nat → Option Nat} (h : t.kind.isVar = false) :
    t.renumber σ = t.withParams (t.params.map fun p => (p.1, p.2.renumber σ)) :=
  renumber_of_none fun hv => by simp [h] at hv

lemma renumber_of_isVar {σ : Nat → Option Nat} (h : t.kind.isVar) (hi : σ t.kind.slot = some i) :
    t.renumber σ = (var i (t.params.map fun p => p.2.renumber σ)).optIf t.isOpt := by
  cases t with
  | plain k => simp_all [renumber, kind, params, isOpt]
  | detailed k name ps cs =>
    have hmembers : (withParams (detailed k name ps cs) (renumberParams σ ps)).members =
      ps.map fun p => p.2.renumber σ := by
      have hlength : (renumberParams σ ps).length = (detailed k name ps cs).params.length := by
        simp [renumberParams_eq_map, params]
      rw [members, isVar_withParams, h, params_withParams hlength, renumberParams_eq_map,
        List.map_map]
      rfl
    simp only [kind] at h hi
    rw [renumber, hmembers]
    simp [h, hi, kind, params, isOpt]

lemma gather_of_isVar (h : t.kind.isVar) : t.gather visit = (visit t.kind.slot).1 ++
      if (visit t.kind.slot).2 then t.params.flatMap fun p => p.2.gather visit else [] := by
  cases t with
  | plain k => simp_all [gather, kind, params]
  | detailed k name ps cs =>
    simp only [kind] at h
    simp only [gather, h, kind, params, ↓reduceIte, gatherParams_eq_flatMap]
    split <;> simp_all

lemma gather_of_not_isVar (h : t.kind.isVar = false) :
    t.gather visit = t.params.flatMap fun p => p.2.gather visit := by
  cases t <;> simp_all [gather, kind, params, gatherParams_eq_flatMap]

lemma mem_gather : i ∈ t.gather visit ↔ ∃ j ∈ t.gather (fun j => ([j], (visit j).2)),
    i ∈ (visit j).1 := by
  induction t using induct with
  | node t ih =>
    have parts : (i ∈ t.params.flatMap fun p => p.2.gather visit) ↔
        ∃ j ∈ t.params.flatMap fun p => p.2.gather fun j => ([j], (visit j).2),
        i ∈ (visit j).1 := by
      simp only [mem_flatMap]
      constructor
      · rintro ⟨p, hp, hi⟩
        obtain ⟨j, hj, hij⟩ := (ih p hp).1 hi
        exact ⟨j, ⟨p, hp, hj⟩, hij⟩
      · rintro ⟨j, ⟨p, hp, hj⟩, hij⟩
        exact ⟨p, hp, (ih p hp).2 ⟨j, hj, hij⟩⟩
    cases h : t.kind.isVar with
    | false => rw [gather_of_not_isVar h, gather_of_not_isVar h, parts]
    | true =>
      rw [gather_of_isVar h, gather_of_isVar h]
      cases hb : (visit t.kind.slot).2 with
      | false => simp
      | true => simp only [↓reduceIte]; grind

lemma gather_congr {v w : Nat → List Nat × Bool}
    (h : ∀ i ∈ t.gather (fun j => ([j], (v j).2)), v i = w i) : t.gather v = t.gather w := by
  induction t using induct with
  | node t ih =>
    have parts (h : ∀ i ∈ t.params.flatMap fun p => p.2.gather fun j => ([j], (v j).2), v i = w i) :
        (t.params.flatMap fun p => p.2.gather v) = t.params.flatMap fun p => p.2.gather w :=
      flatMap_congr fun p hp => ih p hp fun i hi => h i (mem_flatMap.2 ⟨p, hp, hi⟩)
    cases hv : t.kind.isVar with
    | false =>
      rw [gather_of_not_isVar hv] at h
      rw [gather_of_not_isVar hv, gather_of_not_isVar hv, parts h]
    | true =>
      rw [gather_of_isVar hv] at h
      rw [gather_of_isVar hv, gather_of_isVar hv, ← h t.kind.slot (by simp)]
      cases hb : (v t.kind.slot).2 with
      | false => rfl
      | true => rw [if_pos rfl, if_pos rfl, parts fun i hi => h i (by simp [hb, hi])]

@[simp] lemma gather_optIf (visit : Nat → List Nat × Bool) (t : Ty) (b : Bool) :
    (t.optIf b).gather visit = t.gather visit := by
  cases h : t.kind.isVar with
  | false => rw [gather_of_not_isVar h, gather_of_not_isVar (by simpa using h), params_optIf]
  | true => rw [gather_of_isVar h, gather_of_isVar (by simpa using h), params_optIf, slot_optIf]

@[simp] lemma gather_deopt (visit : Nat → List Nat × Bool) (t : Ty) :
    t.deopt.gather visit = t.gather visit := by
  cases h : t.kind.isVar with
  | false => rw [gather_of_not_isVar h, gather_of_not_isVar (by simpa using h), params_deopt]
  | true =>
    rw [gather_of_isVar h, gather_of_isVar (by simpa using h)]
    simp [deopt, Kind.deopt, Kind.withOptional]

/-- The variables outside of constraints. -/
def outerVars (t : Ty) : List Nat := t.gather fun i => ([i], false)

lemma outerVars_of_isVar (h : t.kind.isVar) : t.outerVars = [t.kind.slot] := by
  simp [outerVars, gather_of_isVar h]

lemma outerVars_of_not_isVar (h : t.kind.isVar = false) :
    t.outerVars = t.params.flatMap fun p => p.2.outerVars :=
  gather_of_not_isVar h

@[simp] lemma outerVars_optIf (t : Ty) (b : Bool) : (t.optIf b).outerVars = t.outerVars :=
  gather_optIf _ _ _

@[simp] lemma outerVars_deopt (t : Ty) : t.deopt.outerVars = t.outerVars := gather_deopt _ _

lemma gather_subset_gather {g h : Nat → Bool} (hgh : ∀ i, g i → h i) (t : Ty) :
    t.gather (fun i => ([i], g i)) ⊆ t.gather (fun i => ([i], h i)) := by
  induction t using induct with
  | node t ih =>
    have parts : (t.params.flatMap fun p => p.2.gather fun i => ([i], g i)) ⊆
        t.params.flatMap fun p => p.2.gather fun i => ([i], h i) := by
      intro i hi
      obtain ⟨p, hp, hip⟩ := mem_flatMap.1 hi
      exact mem_flatMap.2 ⟨p, hp, ih p hp hip⟩
    cases hv : t.kind.isVar with
    | false => rwa [gather_of_not_isVar hv, gather_of_not_isVar hv]
    | true =>
      rw [gather_of_isVar hv, gather_of_isVar hv]
      have := hgh t.kind.slot
      intro i hi
      grind

lemma substVars_congr (h : ∀ i ∈ t.outerVars, σ i = τ i) : t.substVars σ = t.substVars τ := by
  induction t using induct with
  | node t ih =>
    cases hv : t.kind.isVar with
    | true =>
      rw [outerVars_of_isVar hv] at h
      rw [substVars_of_isVar hv, substVars_of_isVar hv, h _ (by simp)]
    | false =>
      rw [outerVars_of_not_isVar hv] at h
      rw [substVars_of_not_isVar hv, substVars_of_not_isVar hv]
      congr 1
      refine map_congr_left fun p hp => ?_
      rw [ih p hp fun i hi => h i (mem_flatMap.2 ⟨p, hp, hi⟩)]

lemma mem_outerVars_substVars : i ∈ (t.substVars σ).outerVars ↔
      (i ∈ t.outerVars ∧ σ i = none) ∨ ∃ j ∈ t.outerVars, ∃ u, σ j = some u ∧ i ∈ u.outerVars := by
  induction t using induct with
  | node t ih =>
    cases hv : t.kind.isVar with
    | true =>
      rw [substVars_of_isVar hv, outerVars_of_isVar hv]
      cases hσ : σ t.kind.slot with
      | none => simp only [outerVars_of_isVar hv]; grind
      | some u => simp only [outerVars_optIf]; grind
    | false =>
      rw [substVars_of_not_isVar hv, outerVars_of_not_isVar (by simpa using hv),
        outerVars_of_not_isVar hv, params_withParams_map]
      simp only [mem_flatMap, mem_map]
      constructor
      · rintro ⟨_, ⟨p, hp, rfl⟩, hi⟩
        rcases (ih p hp).1 hi with ⟨hi, hσ⟩ | ⟨j, hj, u, hσ, hi⟩
        · exact .inl ⟨⟨p, hp, hi⟩, hσ⟩
        · exact .inr ⟨j, ⟨p, hp, hj⟩, u, hσ, hi⟩
      · rintro (⟨⟨p, hp, hi⟩, hσ⟩ | ⟨j, ⟨p, hp, hj⟩, u, hσ, hi⟩)
        · exact ⟨_, ⟨p, hp, rfl⟩, (ih p hp).2 (.inl ⟨hi, hσ⟩)⟩
        · exact ⟨_, ⟨p, hp, rfl⟩, (ih p hp).2 (.inr ⟨j, hj, u, hσ, hi⟩)⟩

/-! ## Replacing nothing -/

lemma withParams_withParams (t : Ty) (ps : List Param) :
    (t.withParams ps).withParams ps = t.withParams ps := by
  cases t with
  | plain k => rfl
  | detailed k name qs cs =>
    cases qs <;> cases ps <;> simp only [withParams]
    cases h : k.isElemCont with
    | false => simp [h]
    | true =>
      have hk (j : Kind) : (k.around j).isElemCont = true := h
      simp only [↓reduceIte, hk]
      rfl

/-- Replacing nothing only brings the depths of containers up to date. -/
def settled (t : Ty) : Ty := t.substVars fun _ => none

lemma settled_of_isVar (h : t.kind.isVar) : t.settled = t := substVars_of_isVar h

lemma settled_of_not_isVar (h : t.kind.isVar = false) :
    t.settled = t.withParams (t.params.map fun p => (p.1, p.2.settled)) :=
  substVars_of_not_isVar h

lemma settled_optIf (t : Ty) (b : Bool) : (t.optIf b).settled = t.settled.optIf b := by
  cases h : t.kind.isVar with
  | true => rw [settled_of_isVar h, settled_of_isVar (by simpa using h)]
  | false =>
    rw [settled_of_not_isVar h, settled_of_not_isVar (by simpa using h)]
    cases b
    · rfl
    · cases t with
      | plain k => rfl
      | detailed k name ps cs =>
        cases ps with
        | nil => rfl
        | cons p ps =>
          simp only [optIf, ↓reduceIte, opt, setKind, kind, params, map_cons, withParams]
          have hk : k.opt.isElemCont = k.isElemCont := rfl
          cases he : k.isElemCont <;> simp only [hk, he] <;> rfl

lemma settled_substVars (h : ∀ i ∈ t.outerVars, ∀ u, σ i = some u → u.settled = u) :
    (t.substVars σ).settled = t.substVars σ := by
  induction t using induct with
  | node t ih =>
    cases hv : t.kind.isVar with
    | true =>
      rw [substVars_of_isVar hv]
      cases hσ : σ t.kind.slot with
      | none => exact settled_of_isVar hv
      | some u => rw [settled_optIf, h _ (by simp [outerVars_of_isVar hv]) u hσ]
    | false =>
      rw [substVars_of_not_isVar hv, settled_of_not_isVar (by simpa using hv),
        params_withParams_map, List.map_map]
      have parts : (t.params.map ((fun p => (p.1, p.2.settled)) ∘ fun p =>
        (p.1, p.2.substVars σ))) = t.params.map fun p => (p.1, p.2.substVars σ) := by
        refine map_congr_left fun p hp => ?_
        have := ih p hp fun i hi =>
          h i (by rw [outerVars_of_not_isVar hv]; exact mem_flatMap.2 ⟨p, hp, hi⟩)
        simp [this]
      rw [parts, withParams_withParams]

/-! ## Heights -/

lemma height_le_heightParams {p : Param} (h : p ∈ ps) : p.2.height ≤ heightParams ps := by
  induction ps with
  | nil => simp at h
  | cons q ps ih =>
    simp only [heightParams]
    rcases mem_cons.1 h with rfl | h
    · exact Nat.le_max_left _ _
    · exact Nat.le_trans (ih h) (Nat.le_max_right _ _)

lemma heightParams_le (h : ∀ p ∈ ps, p.2.height ≤ n) : heightParams ps ≤ n := by
  induction ps with
  | nil => simp [heightParams]
  | cons q ps ih =>
    exact Nat.max_le.2 ⟨h q (by simp), ih fun p hp => h p (by simp [hp])⟩

lemma height_of_isVar (h : t.kind.isVar) : t.height = 1 := by cases t <;> simp_all [height, kind]

lemma height_of_not_isVar (h : t.kind.isVar = false) : t.height = 1 + heightParams t.params := by
  cases t <;> simp_all [height, kind, params, heightParams]

lemma height_pos (t : Ty) : 0 < t.height := by
  cases h : t.kind.isVar with
  | true => simp [height_of_isVar h]
  | false => rw [height_of_not_isVar h]; omega

lemma height_lt_of_mem_params {p : Param} (hv : t.kind.isVar = false) (hp : p ∈ t.params) :
    p.2.height < t.height := by
  have := height_le_heightParams hp
  rw [height_of_not_isVar hv]
  omega

lemma height_le_succ (h : ∀ p ∈ t.params, p.2.height ≤ n) : t.height ≤ n + 1 := by
  cases hv : t.kind.isVar with
  | true => simp [height_of_isVar hv]
  | false =>
    have := heightParams_le h
    rw [height_of_not_isVar hv]
    omega

lemma height_congr {u : Ty} (hv : t.kind.isVar = u.kind.isVar) (hp : t.params = u.params) :
    t.height = u.height := by
  cases h : u.kind.isVar with
  | true => rw [height_of_isVar h, height_of_isVar (hv.trans h)]
  | false => rw [height_of_not_isVar h, height_of_not_isVar (hv.trans h), hp]

@[simp] lemma height_optIf (t : Ty) (b : Bool) : (t.optIf b).height = t.height :=
  height_congr (by simp) (by simp)

@[simp] lemma height_deopt (t : Ty) : t.deopt.height = t.height := height_congr (by simp) (by simp)

lemma heightParams_map {f : Ty → Ty} (h : ∀ p ∈ ps, (f p.2).height = p.2.height) :
    heightParams (ps.map fun p => (p.1, f p.2)) = heightParams ps := by
  induction ps with
  | nil => rfl
  | cons p ps ih => simp_all [heightParams]

@[simp] lemma height_settled (t : Ty) : t.settled.height = t.height := by
  induction t using induct with
  | node t ih =>
    cases hv : t.kind.isVar with
    | true => rw [settled_of_isVar hv]
    | false =>
      rw [settled_of_not_isVar hv, height_of_not_isVar (by simpa using hv), height_of_not_isVar hv,
        params_withParams_map, heightParams_map ih]

/-! ## Sizes -/

lemma sizeParams_eq_foldr (ps : List Param) :
    sizeParams ps = ps.foldr (fun p n => p.2.size + n) 0 := by
  induction ps with
  | nil => rfl
  | cons p ps ih => simp [sizeParams, ih]

lemma length_flatMap_outerVars_le {α : Type} {f : α → Ty} {xs : List α} (n : Nat)
    (h : ∀ x ∈ xs, (f x).outerVars.length ≤ (f x).size) :
    (xs.flatMap fun x => (f x).outerVars).length + n ≤ xs.foldr (fun x m => (f x).size + m) n := by
  induction xs with
  | nil => simp
  | cons x xs ih =>
    have hx := h x mem_cons_self
    have hxs := ih fun y hy => h y (mem_cons_of_mem x hy)
    simp only [flatMap_cons, length_append, foldr_cons]
    omega

lemma length_outerVars_le (t : Ty) : t.outerVars.length ≤ t.size := by
  induction t using induct with
  | node t ih =>
    have parts : (t.params.flatMap fun p => p.2.outerVars).length ≤ sizeParams t.params := by
      rw [sizeParams_eq_foldr]
      exact length_flatMap_outerVars_le (f := Prod.snd) 0 ih
    cases hv : t.kind.isVar with
    | true =>
      rw [outerVars_of_isVar hv]
      cases t <;> simp [size]
    | false =>
      rw [outerVars_of_not_isVar hv]
      cases t <;> simp_all [size, params]
      omega

end Resolvent.Ty
