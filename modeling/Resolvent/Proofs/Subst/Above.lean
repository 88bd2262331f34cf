import Resolvent.Proofs.Subst.Optional
import Resolvent.Proofs.Ty.Compatible

/-!
# Common types are above

Unifying and comparing look at the same kinds in different ways: the one takes what two families
have in common, the other tells which of two families is within the other.
-/

namespace Resolvent

/-! ## Families -/

namespace Kind

variable {j k : Kind}

lemma meets_iff_family {mask : UInt32} (h : ~~~ctxMask &&& mask = mask) :
    k.meets mask ↔ k.family &&& mask ≠ 0 := by
  rw [meets, family, UInt32.and_assoc, h, bne_iff_ne]

lemma isCont_iff_family : k.isCont ↔ k.family &&& (idxrMask ||| keyrMask) ≠ 0 :=
  meets_iff_family (by decide)

lemma isSpec_iff_family : k.isSpec ↔ k.family &&& specMask ≠ 0 := meets_iff_family (by decide)

lemma isVoid_eq_false_of_family (h : k.family ≠ 0) : k.isVoid = false := by
  refine beq_eq_false_iff_ne.2 fun hbits => h ?_
  rw [family, hbits]
  decide

lemma isVoid_of_family (hk : k.isKnown) (hctx : k.isCtx = false) (h : k.family = 0) : k.isVoid :=
  (by decide : ∀ k ∈ known, k.isCtx = false → k.family = 0 →
    k.isVoid) k.bare (bare_mem_known hk) hctx h

lemma not_isSpec_of_meet (hj : j.isKnown) (hk : k.isKnown) (hne : (j.family == k.family) = false)
    (hvoid : (meet j k).isVoid = false) (hknown : (meet j k).isKnown) :
    j.isSpec = false ∧ k.isSpec = false :=
  (by decide : ∀ j ∈ known, ∀ k ∈ known, (j.family == k.family) = false →
    (meet j k).isVoid = false → (meet j k).isKnown → j.isSpec = false ∧ k.isSpec = false)
    j.bare (bare_mem_known hj) k.bare (bare_mem_known hk) hne hvoid hknown

end Kind

/-! ## Elementary types -/

namespace Ty

variable {t src dst : Ty}

mutual

/-- No part of the type is an object, or a variable, a reference, an alternative or a self
reference. -/
def isElementary : Ty → Bool
  | plain k => !k.isCtx && !k.isObj
  | detailed k _ ps _ => !k.isCtx && !k.isObj && isElementaryParams ps

def isElementaryParams : List (String × Ty) → Bool
  | [] => true
  | (_, t) :: ps => t.isElementary && isElementaryParams ps

end

lemma isElementaryParams_iff {ps : List Param} :
    isElementaryParams ps ↔ ∀ p ∈ ps, p.2.isElementary := by
  induction ps with
  | nil => simp [isElementaryParams]
  | cons p ps ih => simp [isElementaryParams, ih]

lemma isElementary_iff : t.isElementary ↔ t.kind.isCtx = false ∧ t.kind.isObj = false ∧
    ∀ p ∈ t.params, p.2.isElementary := by
  cases t with
  | plain k => simp [isElementary, kind, params]
  | detailed k n ps cs => simp [isElementary, kind, params, isElementaryParams_iff, and_assoc]

/-- The elementary types that are spelled out. There is one `void`, with or without a mark. -/
inductive Elementary : Ty → Prop
  | mk {t : Ty} : t.kind.isKnown → t.kind.isCtx = false → t.kind.isObj = false →
      (t.isVoid → t.deopt = void) →
    t.withParams t.params = t → (∀ p ∈ t.params, Elementary p.2) → Elementary t

namespace Elementary

lemma isKnown (h : t.Elementary) : t.kind.isKnown := by
  cases h with
  | mk hknown _ _ _ _ _ => exact hknown

lemma isCtx_eq (h : t.Elementary) : t.kind.isCtx = false := by
  cases h with
  | mk _ hctx _ _ _ _ => exact hctx

lemma isObj_eq (h : t.Elementary) : t.kind.isObj = false := by
  cases h with
  | mk _ _ hobj _ _ _ => exact hobj

lemma deopt_eq_void (h : t.Elementary) (hvoid : t.isVoid) : t.deopt = void := by
  cases h with
  | mk _ _ _ hunique _ _ => exact hunique hvoid

lemma part (h : t.Elementary) {p : Param} (hp : p ∈ t.params) : p.2.Elementary := by
  cases h with
  | mk _ _ _ _ _ hparts => exact hparts p hp

lemma concrete (h : t.Elementary) : t.Concrete (fun _ => True) false := by
  induction h with
  | mk hknown hctx _ _ hdepth _ ih =>
    exact .mk (.of_isCtx hknown hctx) (fun _ _ _ => trivial) hdepth ih

lemma deopt (h : t.Elementary) : t.deopt.Elementary := by
  have hsame : t.deopt.deopt = t.deopt := by cases t <;> rfl
  have hkind : t.deopt.kind = t.kind.deopt := kind_setKind _ _
  refine .mk (hkind ▸ h.isKnown) (hkind ▸ h.isCtx_eq) (hkind ▸ h.isObj_eq) (fun hvoid =>
    ?_) h.concrete.deopt.depth fun p hp => ?_
  · rw [hsame]
    rw [isVoid, hkind] at hvoid
    exact h.deopt_eq_void hvoid
  · rw [params_deopt] at hp
    exact h.part hp

end Elementary

namespace Notated

lemma deopt_eq_void (h : t.Notated) (hvoid : t.isVoid) : t.deopt = void := by
  have hnamed : ∀ p ∈ Kind.named, p.2.isVoid → p.2 = .void := by decide
  have hbits {u : Ty} {o : Bool} (hu : (u.optIf o).isVoid) : u.kind.isVoid := by
    rwa [isVoid, Kind.isVoid, bits_optIf] at hu
  have hmarked {u : Ty} {o : Bool} (k : Kind) (hk : k.isVoid = false) (hu : u.kind.bits = k.bits)
      (hvoid : (u.optIf o).isVoid) : (u.optIf o).deopt = void := by
    have hbits := hbits hvoid
    rw [Kind.isVoid, hu] at hbits
    exact absurd hbits (Bool.eq_false_iff.1 hk)
  cases h with
  | kind o hk _ =>
    obtain rfl := hnamed _ hk (hbits hvoid)
    cases o <;> rfl
  | var o _ _ _ => exact hmarked .var (by decide) (by rw [kind_var]; rfl) hvoid
  | self o => exact hmarked .self (by decide) rfl hvoid
  | ref o _ _ _ => exact hmarked .ref (by decide) rfl hvoid
  | sch o _ _ => exact hmarked .sch (by decide) rfl hvoid
  | alt o _ _ _ _ => exact hmarked .alt (by decide) rfl hvoid
  | cont o hk hc _ _ =>
    obtain rfl := hnamed _ hk (hbits hvoid)
    exact absurd hc (by decide)
  | composite o hk hc _ _ _ _ _ _ =>
    obtain rfl := hnamed _ hk (hbits hvoid)
    exact absurd hc (by decide)
  | constants o hk hc _ _ =>
    obtain rfl := hnamed _ hk (hbits hvoid)
    exact absurd hc (by decide)

lemma elementary (h : t.Notated) (ht : t.isElementary) : t.Elementary := by
  induction t using induct with
  | node t ih =>
    obtain ⟨hctx, hobj, hparts⟩ := isElementary_iff.1 ht
    have hdepth : t.withParams t.params = t := h.depth (Kind.isVar_eq_false_of_isCtx hctx)
    exact .mk h.isKnown hctx hobj h.deopt_eq_void hdepth fun p hp =>
      ih p hp (h.part hp) (hparts p hp)

end Notated

/-! ## Comparing with a type above -/

def Above (dst src : Ty) : Prop := (fit src dst).isCompatible

lemma Above.refl (t : Ty) : t.Above t := by
  rw [Above, fit_self]
  decide

lemma above_deopt : dst.deopt.Above src.deopt ↔ dst.Above src := by
  have hsame (t : Ty) : t.deopt.deopt = t.deopt := by cases t <;> rfl
  rw [Above, Above, fit_eq, fit_eq, isCompatible_fitWith, isCompatible_fitWith, hsame, hsame]

section

variable (hctx : src.kind.isCtx = false ∧ dst.kind.isCtx = false)
include hctx

lemma Above.of_any (hany : src.isAny) : dst.Above src :=
  (isCompatible_fit_iff hctx).2 (.inr (.inl hany))

lemma Above.of_family (hspec : src.kind.isSpec = false)
    (hfamily : src.kind.family &&& dst.kind.family = dst.kind.family)
    (hne : dst.kind.family ≠ 0) (hcont : (src.kind.isCont && dst.kind.isCont) = false) :
    dst.Above src := by
  have hsrc : src.kind.family ≠ 0 := by
    intro hzero
    rw [hzero, UInt32.zero_and] at hfamily
    exact hne hfamily.symm
  refine (isCompatible_fit_of_not_isCont hctx hcont hspec).2
    (.inr (.inr (.inr ⟨?_, ?_, by simp [Kind.fits, hfamily]⟩)))
  · exact Kind.isVoid_eq_false_of_family hsrc
  · exact Kind.isVoid_eq_false_of_family hne

lemma Above.of_elem (hobj : src.kind.isObj = false) (hcont : src.kind.isCont ∧ dst.kind.isCont)
    (hfamily : src.kind.family &&& dst.kind.family = dst.kind.family)
    (helem : ∀ x y, src.elem? = some x → dst.elem? = some y → y.Above x) : dst.Above src := by
  refine (isCompatible_fit_of_isCont hctx hcont hobj).2
    (.inr ⟨fun hzero => ?_, fun x hx y hy => helem x y hx hy⟩)
  have hcont := Kind.isCont_iff_family.1 hcont.2
  rw [← hfamily, hzero] at hcont
  exact hcont (by decide)

end

end Ty

/-! ## Unifying -/

namespace Subst

open Solve Ty

variable {s s' : Subst} {a b j t : Ty}

lemma family_join (h : join a b = .ok t) : t.kind.family = a.kind.family &&& b.kind.family := by
  have hmeet : (Kind.meet a.kind b.kind).family = a.kind.family &&& b.kind.family :=
    Kind.family_meet a.kind b.kind
  unfold join at h
  dsimp only at h
  split at h
  · next hfamily =>
    split at h
    · cases h
    · cases h
      rw [← beq_iff_eq.1 hfamily, UInt32.and_self]
      rfl
  · split at h
    · cases h
    · split at h
      · next hsame =>
        cases h
        rw [← hmeet]
        exact (beq_iff_eq.1 (Bool.and_eq_true_iff.1 hsame).1).symm
      · split at h
        · next hsame =>
          cases h
          rw [← hmeet]
          exact (beq_iff_eq.1 (Bool.and_eq_true_iff.1 hsame).1).symm
        · cases h
          exact hmeet

lemma family_and_left (x y : UInt32) : x &&& (x &&& y) = x &&& y := by
  rw [← UInt32.and_assoc, UInt32.and_self]

lemma family_and_right (x y : UInt32) : y &&& (x &&& y) = x &&& y := by
  rw [UInt32.and_comm x y, family_and_left]

lemma above_join (ha : a.Elementary) (hb : b.Elementary)
    (hvoid : a.isVoid = false ∨ b.isVoid = false)
    (hcont : (a.kind.isCont && b.kind.isCont) = false) (h : join a b = .ok t) :
    t.Above a ∧ t.Above b := by
  have hfamily := family_join h
  obtain ⟨hspec, hne, hctx⟩ : (a.kind.isSpec = false ∧ b.kind.isSpec = false) ∧
    a.kind.family &&& b.kind.family ≠ 0 ∧ t.kind.isCtx = false := by
    obtain ⟨hsame, hspec, rfl⟩ | ⟨hdiffer, hmeet, hknown, -, ht⟩ := join_cases h
    · have hsame : a.kind.family = b.kind.family := beq_iff_eq.1 hsame
      have hspec' : b.kind.isSpec = false := by
        rwa [Bool.eq_false_iff, Ne, Kind.isSpec_iff_family, ← hsame, ← Kind.isSpec_iff_family, ← Ne,
          ← Bool.eq_false_iff]
      refine ⟨⟨hspec, hspec'⟩, fun hzero => ?_, ha.isCtx_eq⟩
      rw [← hsame, UInt32.and_self] at hzero
      have hva : a.isVoid := Kind.isVoid_of_family ha.isKnown ha.isCtx_eq hzero
      have hvb : b.isVoid := Kind.isVoid_of_family hb.isKnown hb.isCtx_eq (hsame ▸ hzero)
      simp [hva, hvb] at hvoid
    · refine ⟨Kind.not_isSpec_of_meet ha.isKnown hb.isKnown hdiffer hmeet hknown,
        beq_eq_false_iff_ne.1 hmeet, ?_⟩
      rcases ht with rfl | rfl | rfl
      · exact ha.isCtx_eq
      · exact hb.isCtx_eq
      · exact Kind.isCtx_family_and a.kind b.kind
  have hnot : t.kind.isCont = false := by
    rw [Bool.eq_false_iff]
    intro hct
    rw [Kind.isCont_iff_family, hfamily] at hct
    obtain ⟨hca, hcb⟩ := Kind.isCont_of_meet ha.isKnown hb.isKnown (bne_iff_ne.2 hct)
    simp [hca, hcb] at hcont
  constructor
  · refine .of_family ⟨ha.isCtx_eq, hctx⟩ hspec.1 ?_ (hfamily ▸ hne) (by simp [hnot])
    rw [hfamily, family_and_left]
  · refine .of_family ⟨hb.isCtx_eq, hctx⟩ hspec.2 ?_ (hfamily ▸ hne) (by simp [hnot])
    rw [hfamily, family_and_right]

lemma above_of_bits (ha : a.Elementary) (hb : b.Elementary) (hcont : a.kind.isCont ∧ b.kind.isCont)
    (hmeet : (Kind.meet a.kind b.kind).isCont)
    (hbits : j.kind.bits = (Kind.meet a.kind b.kind).bits)
    (helems : ∀ e, j.elem? = some e → (∀ x, a.elem? = some x → e.Above x) ∧ ∀ y, b.elem? = some y →
    e.Above y) : j.Above a ∧ j.Above b := by
  have hctx : j.kind.isCtx = false := by
    rw [Kind.isCtx, Kind.meets, hbits]
    exact Kind.isCtx_family_and a.kind b.kind
  have hcj : j.kind.isCont := by
    rw [Kind.isCont, Kind.meets, hbits]
    exact hmeet
  have hfamily : j.kind.family = a.kind.family &&& b.kind.family := by
    rw [Kind.family, hbits]
    exact Kind.family_meet a.kind b.kind
  constructor
  · refine .of_elem ⟨ha.isCtx_eq, hctx⟩ ha.isObj_eq ⟨hcont.1, hcj⟩ ?_ fun x e hx he =>
      (helems e he).1 x hx
    rw [hfamily, family_and_left]
  · refine .of_elem ⟨hb.isCtx_eq, hctx⟩ hb.isObj_eq ⟨hcont.2, hcj⟩ ?_ fun y e hy he =>
      (helems e he).2 y hy
    rw [hfamily, family_and_right]

lemma above_unifyContainers (ha : a.Elementary) (hb : b.Elementary)
    (hcont : a.kind.isCont ∧ b.kind.isCont)
    (ih : ∀ x y e s', a.elem? = some x → b.elem? = some y → (unify x y).exec s = (.ok e, s') →
    e.Above x ∧ e.Above y)
    (h : (unifyContainers unify choose a b).exec s = (.ok j, s')) : j.Above a ∧ j.Above b := by
  have helemOf {t : Ty} (ht : t.Elementary) : elemOf choose t = pure t.elem? := by
    simp [elemOf, ht.isObj_eq]
  rw [unifyContainers_eq, helemOf ha, helemOf hb, pure_bind, pure_bind] at h
  split at h
  · cases h
  · next hne =>
    obtain ⟨-, hmeet, -⟩ :=
      Kind.meet_cont ha.isKnown hb.isKnown hcont.1 hcont.2 (Bool.eq_false_iff.2 hne)
    split at h
    · next hisObj => exact absurd (Kind.isObj_of_meet hisObj) (by simp [ha.isObj_eq])
    · next hisObj =>
      have hobj : (Kind.meet a.kind b.kind).isObj = false := Bool.eq_false_iff.2 hisObj
      have hk : (Kind.meet a.kind b.kind).isElemCont := by simp [Kind.isElemCont, hmeet, hobj]
      have haround {e : Ty} {s₁ : Subst}
        (hj : (ofExcept (cont (Kind.meet a.kind b.kind) e) : Solve Ty).exec s₁ = (.ok j, s'))
          (he : (∀ x, a.elem? = some x → e.Above x) ∧ ∀ y, b.elem? = some y → e.Above y) :
          j.Above a ∧ j.Above b := by
        rw [exec_ofExcept] at hj
        obtain rfl := eq_around_of_cont (congrArg Prod.fst hj)
        refine above_of_bits ha hb hcont hmeet rfl fun e' he' => ?_
        rw [elem?_around hk] at he'
        cases he'
        exact he
      rcases hea : a.elem? with _ | x <;> rcases heb : b.elem? with _ | y <;> rw [hea, heb] at h
      · cases h
        exact above_of_bits ha hb hcont hmeet rfl (by simp [elem?, params])
      · exact haround h (by simp [hea, heb, Above.refl])
      · exact haround h (by simp [hea, heb, Above.refl])
      · obtain ⟨e, s₁, he, h⟩ := exec_bind_eq_ok.1 h
        obtain ⟨hx, hy⟩ := ih x y e s₁ hea heb he
        exact haround h (by simp [hea, heb, hx, hy])

lemma above_unifyBare (ha : a.Elementary) (hb : b.Elementary)
    (hopt : a.isOpt = false ∧ b.isOpt = false)
    (ih : ∀ x y e s', a.elem? = some x → b.elem? = some y → (unify x y).exec s = (.ok e, s') →
    e.Above x ∧ e.Above y)
    (h : (unifyBare unify choose a b).exec s = (.ok j, s')) : j.Above a ∧ j.Above b := by
  obtain ⟨heq, rfl⟩ | ⟨hany, rfl⟩ | ⟨hany, rfl⟩ | ⟨hne, -, -, -, -, h⟩ := unifyBare_cases h
  · obtain rfl := (ha.concrete.ground.equal_iff hb.concrete.ground).1 heq
    exact ⟨.refl _, .refl _⟩
  · exact ⟨.of_any ⟨ha.isCtx_eq, hb.isCtx_eq⟩ hany, .refl _⟩
  · exact ⟨.refl _, .of_any ⟨hb.isCtx_eq, ha.isCtx_eq⟩ hany⟩
  · unfold unifyKinds at h
    split at h
    · next hcont => exact above_unifyContainers ha hb (Bool.and_eq_true_iff.1 hcont) ih h
    · next hcont =>
      have hvoid : a.isVoid = false ∨ b.isVoid = false := by
        by_contra hboth
        simp only [not_or, Bool.not_eq_false] at hboth
        have hdeopt {t : Ty} (ht : t.isOpt = false) : t.deopt = t := deopt_optIf ht false
        rw [← hdeopt hopt.1, ← hdeopt hopt.2, ha.deopt_eq_void hboth.1, hb.deopt_eq_void hboth.2]
          at hne
        cases hne
      rw [exec_ofExcept] at h
      exact above_join ha hb hvoid (Bool.eq_false_iff.2 hcont) (congrArg Prod.fst h)

lemma Sound.above_unify (hs : s.Sound) (ha : a.Elementary) (hb : b.Elementary)
    (h : (unify a b).exec s = (.ok j, s')) : j.Above a ∧ j.Above b := by
  induction a using Ty.induct generalizing b j s' with
  | node a ih =>
    rw [hs.exec_unify_concrete ha.concrete hb.concrete, unifyPlain_eq] at h
    split at h
    · next heq =>
      obtain rfl := (ha.concrete.ground.equal_iff hb.concrete.ground).1 heq
      cases h
      exact ⟨.refl _, .refl _⟩
    · obtain ⟨res, s₁, hres, h⟩ := exec_bind_eq_ok.1 h
      cases h
      have hopt := isOpt_unifyBare (r := ⟨unify, choose⟩) (isOpt_deopt a) (isOpt_deopt b) hres
      have helems : ∀ x y e s', a.deopt.elem? = some x → b.deopt.elem? = some y →
        (unify x y).exec s = (.ok e, s') → e.Above x ∧ e.Above y := by
        intro x y e s₂ hx hy he
        obtain ⟨p, hp, rfl⟩ := exists_param_of_elem? hx
        obtain ⟨q, hq, rfl⟩ := exists_param_of_elem? hy
        rw [params_deopt] at hp hq
        exact ih p hp (ha.part hp) (hb.part hq) he
      obtain ⟨hleft, hright⟩ :=
        above_unifyBare ha.deopt hb.deopt ⟨isOpt_deopt a, isOpt_deopt b⟩ helems hres
      exact ⟨above_deopt.1 (by rwa [deopt_optIf hopt]), above_deopt.1 (by rwa [deopt_optIf hopt])⟩

/-- Types that can be written, without objects and without anything that needs a context, fit their
common type at least after a check; and it is optional if and only if one of them is. -/
theorem unify_above (ops : List Op) {src src' : String} (ha : parse src = .ok a)
    (hb : parse src' = .ok b) (hea : a.isElementary) (heb : b.isElementary)
    (hj : (unify a b).exec (after ops) = (.ok j, s')) :
    (Ty.fit a j).isCompatible ∧ (Ty.fit b j).isCompatible ∧ j.isOpt = (a.isOpt || b.isOpt) := by
  have hs := sound_after ops
  have ha' : a.Elementary := (notated_of_parse ha).elementary hea
  have hb' : b.Elementary := (notated_of_parse hb).elementary heb
  obtain ⟨hleft, hright⟩ := hs.above_unify ha' hb' hj
  rw [hs.exec_unify_concrete ha'.concrete hb'.concrete] at hj
  exact ⟨hleft, hright, isOpt_unifyPlain (r := ⟨unify, choose⟩) hj⟩

def hues : Ty := .list (enum "hue" [("red", 0), ("blue", 1)]).opt

/-- An optional indexer of raw data has optional characters in common with it. -/
theorem unify_above_hues : parse "list|(enum? \"hue\" +red 0 +blue 1)" = .ok hues ∧
    parse "idxr?|raw" = .ok (Ty.idxr (.plain .raw)).opt ∧
    hues.isElementary ∧ (Ty.idxr (.plain .raw)).opt.isElementary ∧
    (unify hues (Ty.idxr (.plain .raw)).opt).exec (after [.newVar []]) =
      (.ok (Ty.idxr Ty.char.opt).opt, after [.newVar []]) ∧
    (Ty.fit hues (Ty.idxr Ty.char.opt).opt).isCompatible ∧
    (Ty.fit (Ty.idxr (.plain .raw)).opt (Ty.idxr Ty.char.opt).opt).isCompatible ∧
    (Ty.idxr Ty.char.opt).opt.isOpt = (hues.isOpt || (Ty.idxr (.plain .raw)).opt.isOpt) := by
  have ha : parse "list|(enum? \"hue\" +red 0 +blue 1)" = .ok hues := by cbv
  have hb : parse "idxr?|raw" = .ok (Ty.idxr (.plain .raw)).opt := by cbv
  have hj : (unify hues (Ty.idxr (.plain .raw)).opt).exec (after [.newVar []]) =
      (.ok (Ty.idxr Ty.char.opt).opt, after [.newVar []]) := by cbv
  exact ⟨ha, hb, by decide, by decide, hj,
    unify_above [.newVar []] ha hb (by decide) (by decide) hj⟩

end Subst

end Resolvent
