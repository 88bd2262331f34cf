import Resolvent.Proofs.Ty.Widening

/-!
# Normal results

Comparing types has six levels, and the classes say what the step from the one type to the other is.
-/

namespace Resolvent

/-! ## Levels without classes -/

namespace Fit

variable {f g : Fit} {fs : List Fit}

/-- The level is one of the six, and neither the highest nor the lowest one comes with classes. -/
structure Normal (f : Fit) : Prop where
  level_le : f.level.toNat ≤ 5
  classes_eq : f.level.toNat = 0 ∨ f.level.toNat = 5 → f.classes = 0

instance : Decidable f.Normal :=
  decidable_of_iff (f.level.toNat ≤ 5 ∧ (f.level.toNat = 0 ∨ f.level.toNat = 5 → f.classes = 0))
    ⟨fun h => ⟨h.1, h.2⟩, fun h => ⟨h.1, h.2⟩⟩

lemma Normal.eq_same_iff (h : f.Normal) : f = same ↔ f.Reaches 5 := by
  constructor
  · rintro rfl
    decide
  · intro hreaches
    have hlevel : f.level.toNat = 5 := le_antisymm h.level_le hreaches
    exact ext_level (UInt16.toNat.inj hlevel) (h.classes_eq (.inr hlevel))

def Lesser (f : Fit) : Prop := f.Normal ∧ f ≠ same

instance : Decidable f.Lesser := inferInstanceAs (Decidable (f.Normal ∧ f ≠ same))

lemma Normal.lesser_iff (h : f.Normal) : f.Lesser ↔ f.level.toNat < 5 := by
  rw [Lesser, and_iff_right h, Ne, h.eq_same_iff, Reaches, Nat.not_le]

lemma Normal.lesser_of_level (h : f.Normal) (hne : ¬ (f.level == sameLevel) = true) : f.Lesser :=
  ⟨h, fun heq => hne (by rw [heq]; decide)⟩

lemma normal_weaker (hle : (f.weaker g).level.toNat ≤ 5)
    (hsame : (f.weaker g).level.toNat = 5 → f.classes = 0 ∧ g.classes = 0) :
    (f.weaker g).Normal := by
  refine ⟨hle, fun hlevel => ?_⟩
  rw [classes_weaker]
  split
  · rfl
  · next hnone =>
    have hmin := toNat_level_weaker f g
    obtain ⟨hf, hg⟩ := hsame (by omega)
    rw [hf, hg]
    rfl

lemma Normal.weaker (hf : f.Normal) (hg : g.Normal) : (f.weaker g).Normal := by
  have hlevel := toNat_level_weaker f g
  have hle := hf.level_le
  have hle' := hg.level_le
  exact normal_weaker (by omega) fun h => ⟨hf.classes_eq (by omega), hg.classes_eq (by omega)⟩

lemma Lesser.weaker (hf : f.Lesser) (g : Fit) : (f.weaker g).Lesser := by
  have hlt := hf.1.lesser_iff.1 hf
  have hlevel := toNat_level_weaker f g
  have hnormal : (f.weaker g).Normal := normal_weaker (by omega) fun h => by omega
  exact hnormal.lesser_iff.2 (by omega)

lemma normal_foldl_weaker {acc : Fit} (hacc : acc.Normal) (hfs : ∀ g ∈ fs, g.Normal) :
    (fs.foldl weaker acc).Normal := by
  induction fs generalizing acc with
  | nil => exact hacc
  | cons g fs ih =>
    obtain ⟨hg, hfs⟩ := List.forall_mem_cons.1 hfs
    exact ih (hacc.weaker hg) hfs

lemma Lesser.adding {bits : UInt16} (h : f.Lesser) (hbits : bits.toNat < 256) :
    (f.adding bits).Lesser := by
  have hlt := h.1.lesser_iff.1 h
  have hlevel := congrArg UInt16.toNat (level_adding hbits f)
  have hnormal : (f.adding bits).Normal := by
    refine ⟨by omega, fun hends => ?_⟩
    have hzero : f.level = noneLevel :=
      UInt16.toNat.inj (by rw [show noneLevel.toNat = 0 from rfl]; omega)
    rw [Fit.adding, if_pos (beq_iff_eq.2 hzero)]
    exact h.1.classes_eq (by omega)
  exact hnormal.lesser_iff.2 (by omega)

lemma normal_cap {l : UInt16} (hl : 0 < l.toNat ∧ l.toNat < 5) (hf : 0 < f.level.toNat) :
    (f.cap l).Normal := by
  have hlevel := toNat_level_cap (by omega : l.toNat < 256) f
  exact ⟨by omega, fun hends => by omega⟩

end Fit

lemma Kind.isObj_congr {j k : Kind} (h : j.family = k.family) : j.isObj = k.isObj := by
  rw [Bool.eq_iff_iff, isObj, isObj, meets_iff_family (by decide), meets_iff_family (by decide), h]

namespace Ty

variable {a c : Ty} {f : Ty → Ty → Fit}

/-! ## Comparing -/

lemma lesser_fitKinds (a c : Ty) : (fitKinds a c).Lesser := by
  unfold fitKinds
  dsimp only
  repeat' split
  all_goals decide

lemma normal_fitContKinds {kinds : Fit} (h : fitContKinds a.kind c.kind = some kinds) :
    kinds.Normal ∧ (a.kind.isObj ≠ c.kind.isObj → kinds.Lesser) := by
  have hnormal : kinds.Normal := by
    unfold fitContKinds at h
    dsimp only at h
    split_ifs at h <;> cases h <;> decide
  refine ⟨hnormal, fun hobj => ⟨hnormal, fun hsame => hobj (Kind.isObj_congr ?_)⟩⟩
  exact ((reaches_fitContKinds h le_rfl).1 (hnormal.eq_same_iff.1 hsame)).2 rfl

lemma lesser_foldl (e : Ty) (ps : List Param) {acc : Fit} (hacc : acc.Lesser) :
    (ps.foldl (fun acc p => acc.weaker ((f p.2 e).adding Fit.elemBit)) acc).Lesser := by
  induction ps generalizing acc with
  | nil => exact hacc
  | cons p ps ih => exact ih (hacc.weaker _)

section

variable (hf : ∀ a b, (f a b).Normal)
include hf

lemma normal_added {p : Param} {g : Fit} (h : added f a p = some g) : g.Normal := by
  unfold added at h
  split at h
  · next q hq =>
    split at h
    · cases h
    · next hne =>
      cases h
      exact (((hf q.2 p.2).lesser_of_level hne).adding (by decide)).1
  · cases h
    decide

lemma normal_fitObjects (a c : Ty) : (fitObjects f a c).Normal := by
  have hsum : (sum f a c.params (if a.name = c.name then .same else .equal)).Normal := by
    refine Fit.normal_foldl_weaker (by split <;> decide) fun g hg => ?_
    obtain ⟨p, -, hadded⟩ := List.mem_filterMap.1 hg
    exact normal_added hf hadded
  cases ha : a.isDetailed with
  | false =>
    rw [fitObjects, ha]
    exact (by decide : Fit.checkElem.Normal)
  | true =>
    cases hc : c.isDetailed with
    | false =>
      rw [fitObjects, ha, hc]
      exact (by decide : Fit.widen.Normal)
    | true =>
      rw [fitObjects_eq ha hc, walked, settled?]
      generalize sum f a c.params (if a.name = c.name then .same else .equal) = acc at hsum
      cases c.params.any (missing a) with
      | true => exact (by decide : Fit.none.Normal)
      | false =>
        cases acc.level == Fit.noneLevel with
        | true => exact (by decide : Fit.none.Normal)
        | false =>
          simp only [Bool.false_eq_true, ↓reduceIte]
          split
          · exact hsum.weaker (by decide)
          · exact hsum

lemma normal_fitContainers (a c : Ty) : (fitContainers f a c).Normal := by
  rw [fitContainers]
  cases hk : fitContKinds a.kind c.kind with
  | none => exact (by decide : Fit.none.Normal)
  | some kinds =>
    obtain ⟨hnormal, hlesser⟩ := normal_fitContKinds hk
    dsimp only
    split
    · exact normal_fitObjects hf a c
    · split
      · exact hnormal.weaker (by decide)
      · split
        · next hc ha =>
          have hless := hlesser (by simp [ha, hc])
          split
          · exact hnormal
          · exact (lesser_foldl _ a.params hless).1
        · split
          · split
            · exact hnormal
            · next hne => exact hnormal.weaker (((hf _ _).lesser_of_level hne).adding (by decide)).1
          · exact hnormal.weaker (by decide)
          · exact hnormal.weaker (by decide)
          · exact hnormal

lemma normal_fitPlain (a c : Ty) : (fitPlain f a c).Normal := by
  unfold fitPlain
  split_ifs
  any_goals decide
  · exact normal_fitContainers hf a c
  · exact (lesser_fitKinds a c).1

lemma normal_fitWith (a c : Ty) : (fitWith f a c).Normal := by
  have hnormal := normal_fitPlain hf a.deopt c.deopt
  rw [fitWith]
  generalize fitPlain f a.deopt c.deopt = g at hnormal
  split
  · exact hnormal
  · next hguard =>
    have hcompatible : g.isCompatible := by simp_all
    have hlevel : 2 ≤ g.level.toNat := g.isCompatible_iff.1 hcompatible
    split
    · exact Fit.normal_cap (by decide) (by rw [Fit.level_adding (by decide)]; omega)
    · exact Fit.normal_cap (by decide) (by rw [Fit.level_adding (by decide)]; omega)
    · exact hnormal

end

lemma normal_fit (a c : Ty) : (fit a c).Normal := by
  have hfuel (n : Nat) (a c : Ty) : (fitN n a c).Normal := by
    induction n generalizing a c with
    | zero => exact (by decide : Fit.none.Normal)
    | succ n ih => exact normal_fitWith ih a c
  exact hfuel a.size a c

end Ty

end Resolvent
