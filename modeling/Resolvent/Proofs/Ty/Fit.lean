import Resolvent.Proofs.Ty.Equality
import Resolvent.Proofs.Ty.Variables
import Resolvent.Ty.Fit

/-!
# Levels, classes and fuel

A result of comparing types is a level and a set of classes.
-/

namespace Resolvent

/-! ## Levels and classes -/

namespace Fit

variable {f g : Fit} {bits l c : UInt16}

lemma level_or (h : bits.toNat < 256) : (⟨f.bits ||| bits⟩ : Fit).level = f.level := by
  apply UInt16.toNat.inj
  have hshift : bits.toNat >>> 8 = 0 := by rw [Nat.shiftRight_eq_div_pow]; omega
  simp [level, Nat.shiftRight_or_distrib, hshift]

lemma toNat_level (f : Fit) : f.level.toNat = f.bits.toNat / 256 := by
  rw [level, UInt16.toNat_shiftRight, Nat.shiftRight_eq_div_pow]
  rfl

lemma toNat_classes (f : Fit) : f.classes.toNat = f.bits.toNat % 256 := by
  exact Nat.and_two_pow_sub_one_eq_mod f.bits.toNat 8

lemma classes_lt (f : Fit) : f.classes.toNat < 256 := by
  rw [toNat_classes]
  omega

lemma level_lt (f : Fit) : f.level.toNat < 256 := by
  have := f.bits.toNat_lt
  rw [toNat_level]
  omega

lemma toNat_of (hl : l.toNat < 256) (hc : c.toNat < 256) :
    (of l c).bits.toNat = l.toNat * 256 + c.toNat := by
  have hshift : (l <<< 8).toNat = l.toNat <<< 8 := by
    refine (UInt16.toNat_shiftLeft l 8).trans (Nat.mod_eq_of_lt ?_)
    rw [Nat.shiftLeft_eq]
    change l.toNat * 2 ^ 8 < 2 ^ 16
    omega
  rw [of, UInt16.toNat_or, hshift, ← Nat.shiftLeft_add_eq_or_of_lt hc, Nat.shiftLeft_eq]

lemma level_of (hl : l.toNat < 256) (hc : c.toNat < 256) : (of l c).level = l := by
  apply UInt16.toNat.inj
  rw [toNat_level, toNat_of hl hc]
  omega

lemma classes_of (hl : l.toNat < 256) (hc : c.toNat < 256) : (of l c).classes = c := by
  apply UInt16.toNat.inj
  rw [toNat_classes, toNat_of hl hc]
  omega

lemma ext_level (hl : f.level = g.level) (hc : f.classes = g.classes) : f = g := by
  have hdiv := congrArg UInt16.toNat hl
  have hmod := congrArg UInt16.toNat hc
  rw [toNat_level, toNat_level] at hdiv
  rw [toNat_classes, toNat_classes] at hmod
  have hbits : f.bits = g.bits := UInt16.toNat.inj (by omega)
  exact congrArg mk hbits

/-! ## The weaker of two results -/

lemma classes_or_lt (f g : Fit) : (f.classes ||| g.classes).toNat < 256 := by
  exact Nat.or_lt_two_pow (n := 8) f.classes_lt g.classes_lt

lemma toNat_min_level (f g : Fit) :
    (min f.level g.level).toNat = min f.level.toNat g.level.toNat := by
  simp only [min, UInt16.le_iff_toNat_le]
  split <;> omega

lemma level_eq_none_or : (f.level == noneLevel || g.level == noneLevel) = true ↔ f.level.toNat = 0 ∨
    g.level.toNat = 0 := by
  have hzero : noneLevel.toNat = 0 := rfl
  simp [← UInt16.toNat_inj, hzero]

lemma toNat_level_weaker (f g : Fit) :
    (f.weaker g).level.toNat = min f.level.toNat g.level.toNat := by
  have hf := f.level_lt
  have hmin := toNat_min_level f g
  unfold weaker
  split
  · next hnone =>
    have hlevel := level_eq_none_or.1 hnone
    rw [show none.level.toNat = 0 from rfl]
    omega
  · rw [level_of (by omega) (classes_or_lt f g), hmin]

lemma classes_weaker (f g : Fit) :
    (f.weaker g).classes = if f.level.toNat = 0 ∨ g.level.toNat = 0 then 0
    else f.classes ||| g.classes := by
  have hf := f.level_lt
  have hmin := toNat_min_level f g
  unfold weaker
  simp only [level_eq_none_or]
  split
  · rfl
  · exact classes_of (by omega) (classes_or_lt f g)

lemma weaker_right_comm (f g h : Fit) : (f.weaker g).weaker h = (f.weaker h).weaker g := by
  refine ext_level (UInt16.toNat.inj ?_) ?_
  · simp only [toNat_level_weaker]
    omega
  · simp only [classes_weaker, toNat_level_weaker]
    by_cases hnone : f.level.toNat = 0 ∨ g.level.toNat = 0 ∨ h.level.toNat = 0
    · rw [if_pos (by omega), if_pos (by omega)]
    · rw [if_neg (by omega), if_neg (by omega), if_neg (by omega), if_neg (by omega),
        UInt16.or_assoc, UInt16.or_assoc, UInt16.or_comm g.classes]

instance : RightCommutative weaker := ⟨weaker_right_comm⟩

/-! ## Changing a result -/

lemma level_adding (h : bits.toNat < 256) (f : Fit) : (f.adding bits).level = f.level := by
  unfold adding
  split
  · rfl
  · exact level_or h

lemma toNat_level_cap (hl : l.toNat < 256) (f : Fit) :
    (f.cap l).level.toNat = min f.level.toNat l.toNat := by
  unfold cap
  split
  · next hle =>
    rw [UInt16.le_iff_toNat_le] at hle
    omega
  · next hle =>
    rw [UInt16.le_iff_toNat_le] at hle
    rw [level_of hl f.classes_lt]
    omega

end Fit

/-! ## Fuel -/

namespace Ty

variable {f g : Ty → Ty → Fit} {src dst : Ty}

lemma fitFields_congr (h : ∀ p ∈ src.params, ∀ t, f p.2 t = g p.2 t) (ps : List Param) (acc : Fit)
    (found : Nat) : fitFields f src ps acc found = fitFields g src ps acc found := by
  induction ps generalizing acc found with
  | nil => rfl
  | cons q ps ih =>
    obtain ⟨n, t⟩ := q
    rw [fitFields, fitFields]
    simp only [ih]
    cases hfield : src.field? (Param.key n) with
    | none => rfl
    | some p => simp only [h p (List.mem_of_find?_eq_some hfield) t]

lemma fitContainers_congr (h : ∀ p ∈ src.params, ∀ t, f p.2 t = g p.2 t) (dst : Ty) :
    fitContainers f src dst = fitContainers g src dst := by
  have helem {s : Ty} (hs : src.elem? = some s) (d : Ty) : f s d = g s d := by
    obtain ⟨p, hp, rfl⟩ := exists_param_of_elem? hs
    exact h p hp d
  have hfold (elem : Ty) (kinds : Fit) :
    src.params.foldl (fun acc p => acc.weaker ((f p.2 elem).adding Fit.elemBit)) kinds =
        src.params.foldl (fun acc p => acc.weaker ((g p.2 elem).adding Fit.elemBit)) kinds :=
    List.foldl_ext _ _ _ fun acc p hp => by rw [h p hp elem]
  unfold fitContainers
  simp only [fitObjects, fitFields_congr h, hfold]
  cases hs : src.elem? with
  | none => cases dst.elem? <;> rfl
  | some s =>
    cases dst.elem? with
    | none => rfl
    | some d => simp only [helem hs d]

lemma fitWith_congr (h : ∀ p ∈ src.params, ∀ t, f p.2 t = g p.2 t) (dst : Ty) :
    fitWith f src dst = fitWith g src dst := by
  have hcont : fitContainers f src.deopt dst.deopt = fitContainers g src.deopt dst.deopt :=
    fitContainers_congr (by simpa using h) dst.deopt
  have hplain : fitPlain f src.deopt dst.deopt = fitPlain g src.deopt dst.deopt := by
    rw [fitPlain, fitPlain, hcont]
  rw [fitWith, fitWith, hplain]

lemma fitN_congr {n m : Nat} (hn : src.size ≤ n) (hm : src.size ≤ m) : fitN n src = fitN m src := by
  induction src using induct generalizing n m with
  | node t ih =>
    have hpos : 0 < t.size := by cases t <;> simp [size]
    obtain ⟨n, rfl⟩ : ∃ k, n = k + 1 := ⟨n - 1, by omega⟩
    obtain ⟨m, rfl⟩ : ∃ k, m = k + 1 := ⟨m - 1, by omega⟩
    funext dst
    refine fitWith_congr (fun p hp u => ?_) dst
    have hlt := size_lt_of_mem_params hp
    exact congrFun (ih p hp (by omega) (by omega)) u

lemma fit_eq (src dst : Ty) : fit src dst = fitWith fit src dst := by
  rw [fit, fitN_congr le_rfl (Nat.le_succ src.size), fitN]
  refine fitWith_congr (fun p hp u => ?_) dst
  rw [fit, fitN_congr (size_lt_of_mem_params hp).le le_rfl]

lemma fit_self (t : Ty) : fit t t = .same := by
  have hplain : fitPlain fit t.deopt t.deopt = .same := by rw [fitPlain, if_pos (equal_self _)]
  rw [fit_eq, fitWith, hplain]
  split
  · rfl
  · cases t.isOpt <;> rfl

end Ty

end Resolvent
