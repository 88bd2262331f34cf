import Resolvent.Proofs.Ty.Fit

/-!
# Levels of results

A result of comparing reaches a level if all that goes into it does: the kinds, the fields that are
looked up, the elements.
-/

namespace Resolvent

open List

variable {acc : Fit} {fs : List Fit}

namespace Fit

variable {f g : Fit} {n : Nat}

/-- The result is of the level or a higher one. -/
def Reaches (n : Nat) (f : Fit) : Prop := n ≤ f.level.toNat

instance : Decidable (f.Reaches n) := inferInstanceAs (Decidable (n ≤ f.level.toNat))

@[simp] lemma reaches_none : none.Reaches n ↔ n ≤ 0 := Iff.rfl
@[simp] lemma reaches_ref : ref.Reaches n ↔ n ≤ 1 := Iff.rfl
@[simp] lemma reaches_checkAny : checkAny.Reaches n ↔ n ≤ 2 := Iff.rfl
@[simp] lemma reaches_checkElem : checkElem.Reaches n ↔ n ≤ 2 := Iff.rfl
@[simp] lemma reaches_narrow : narrow.Reaches n ↔ n ≤ 2 := Iff.rfl
@[simp] lemma reaches_convAny : convAny.Reaches n ↔ n ≤ 3 := Iff.rfl
@[simp] lemma reaches_convSibling : convSibling.Reaches n ↔ n ≤ 3 := Iff.rfl
@[simp] lemma reaches_equal : equal.Reaches n ↔ n ≤ 4 := Iff.rfl
@[simp] lemma reaches_widen : widen.Reaches n ↔ n ≤ 4 := Iff.rfl
@[simp] lemma reaches_same : same.Reaches n ↔ n ≤ 5 := Iff.rfl

@[simp] lemma reaches_weaker : (f.weaker g).Reaches n ↔ f.Reaches n ∧ g.Reaches n := by
  rw [Reaches, toNat_level_weaker, le_min_iff, Reaches, Reaches]

lemma reaches_adding {bits : UInt16} (h : bits.toNat < 256) : (f.adding bits).Reaches n ↔
    f.Reaches n := by
  rw [Reaches, level_adding h, Reaches]

@[simp] lemma reaches_adding_elemBit : (f.adding elemBit).Reaches n ↔ f.Reaches n :=
  reaches_adding (by decide)

lemma reaches_cap {l : UInt16} (h : l.toNat < 256) : (f.cap l).Reaches n ↔ f.Reaches n ∧
    n ≤ l.toNat := by
  rw [Reaches, toNat_level_cap h, le_min_iff, Reaches]

lemma isCompatible_iff (f : Fit) : f.isCompatible ↔ f.Reaches 2 := by
  rw [isCompatible, decide_eq_true_eq]
  rfl

lemma reaches_of_level (h : (f.level == sameLevel) = true) (hn : n ≤ 5) : f.Reaches n := by
  rw [Reaches, beq_iff_eq.1 h]
  exact hn

lemma not_reaches_of_level (h : (f.level == noneLevel) = true) (hn : 0 < n) : ¬ f.Reaches n := by
  rw [Reaches, beq_iff_eq.1 h]
  exact Nat.not_le.2 hn

lemma reaches_foldl_weaker : (fs.foldl weaker acc).Reaches n ↔ acc.Reaches n ∧
    ∀ g ∈ fs, g.Reaches n := by
  induction fs generalizing acc with
  | nil => simp
  | cons g fs ih => rw [foldl_cons, ih, reaches_weaker, forall_mem_cons, and_assoc]

end Fit

namespace Ty

variable {f : Ty → Ty → Fit} {s d : Ty} {ps : List Param} {n : Nat}

/-! ## The walk over fields -/

def missing (src : Ty) (p : Param) : Bool := (src.field? (Param.key p.1)).isNone && !Param.isOpt p.1

def added (f : Ty → Ty → Fit) (src : Ty) (p : Param) : Option Fit :=
  match src.field? (Param.key p.1) with
  | some q => if (f q.2 p.2).level == Fit.sameLevel then none
      else some ((f q.2 p.2).adding Fit.elemBit)
  | none => some (Fit.equal.adding Fit.elemBit)

def sum (f : Ty → Ty → Fit) (src : Ty) (ps : List Param) (acc : Fit) : Fit :=
  (ps.filterMap (added f src)).foldl Fit.weaker acc

def count (src : Ty) (ps : List Param) : Nat :=
  ps.countP fun p => (src.field? (Param.key p.1)).isSome

def settled? (r : Fit × Nat) : Option (Fit × Nat) :=
  if r.1.level == Fit.noneLevel then none else some r

/-- What a walk comes to that starts with a result and a number of fields: nothing where a field is
missing or does not fit. -/
def walked (f : Ty → Ty → Fit) (src : Ty) (ps : List Param) (acc : Fit) (found : Nat) :
    Option (Fit × Nat) :=
  if ps.any (missing src) then none else settled? (sum f src ps acc, found + count src ps)

lemma settled?_none (found : Nat) : settled? (Fit.none, found) = none :=
  if_pos (show (Fit.none.level == Fit.noneLevel) = true by decide)

lemma level_foldl_weaker (h : (acc.level == Fit.noneLevel) = true) :
    ((fs.foldl Fit.weaker acc).level == Fit.noneLevel) = true := by
  induction fs generalizing acc with
  | nil => exact h
  | cons g fs ih =>
    refine ih ?_
    rw [Fit.weaker, h, Bool.true_or, if_pos rfl]
    decide

lemma walked_of_level (h : (acc.level == Fit.noneLevel) = true) (ps : List Param) (found : Nat) :
    walked f s ps acc found = none := by
  have hsum : ((sum f s ps acc).level == Fit.noneLevel) = true := level_foldl_weaker h
  simp only [walked, settled?, hsum, ↓reduceIte, ite_self]

lemma walked_cons {p : Param} (h : missing s p = false) (ps : List Param) (acc : Fit)
    (found : Nat) : walked f s (p :: ps) acc found =
      walked f s ps ((added f s p).elim acc acc.weaker)
      (found + if (s.field? (Param.key p.1)).isSome then 1 else 0) := by
  have hsum : sum f s (p :: ps) acc = sum f s ps ((added f s p).elim acc acc.weaker) := by
    cases hadded : added f s p <;> simp [sum, hadded]
  have hcount : found + count s (p :: ps) = found + (if (s.field? (Param.key p.1)).isSome then 1
    else 0) + count s ps := by
    rw [count, countP_cons, count, Nat.add_comm (countP _ _), Nat.add_assoc]
  rw [walked, walked, any_cons, h, Bool.false_or, hsum, hcount]

lemma fitFields_cons (p : Param) (ps : List Param) (acc : Fit) (found : Nat) :
    fitFields f s (p :: ps) acc found = if missing s p then (Fit.none, found) else
        let acc := (added f s p).elim acc acc.weaker
        let found := found + if (s.field? (Param.key p.1)).isSome then 1 else 0
        if acc.level == Fit.noneLevel then (Fit.none, found) else fitFields f s ps acc found := by
  obtain ⟨n, t⟩ := p
  rw [fitFields]
  cases hq : s.field? (Param.key n) with
  | none => cases hopt : Param.isOpt n <;> simp [missing, added, hq, hopt]
  | some q => cases hsame : (f q.2 t).level == Fit.sameLevel <;> simp [missing, added, hq, hsame]

lemma settled?_fitFields (ps : List Param) (acc : Fit) (found : Nat) :
    settled? (fitFields f s ps acc found) = walked f s ps acc found := by
  induction ps generalizing acc found with
  | nil => rfl
  | cons p ps ih =>
    rw [fitFields_cons]
    cases hmissing : missing s p with
    | true => simp [walked, hmissing, settled?_none]
    | false =>
      rw [walked_cons hmissing, if_neg Bool.false_ne_true]
      dsimp only
      split
      · -- Further fields would not make a failure good.
        next hnone => rw [walked_of_level hnone, settled?_none]
      · exact ih _ _

lemma fitObjects_eq (hs : s.isDetailed) (hd : d.isDetailed) : fitObjects f s d =
    match walked f s d.params (if s.name = d.name then .same else .equal) 0 with
    | none => .none
    | some (acc, found) => if s.params.length > found then acc.weaker (Fit.widen.adding Fit.elemBit)
        else acc := by
  rw [← settled?_fitFields, settled?, fitObjects, hs, hd]
  generalize (if s.name = d.name then Fit.same else Fit.equal) = start
  dsimp only
  cases (fitFields f s d.params start 0).1.level == Fit.noneLevel <;> rfl

/-! ## What reaches a level -/

/-- The field finds a type in the source that compares well enough, or it may be missing there. -/
def Found (n : Nat) (f : Ty → Ty → Fit) (src : Ty) (p : Param) : Prop :=
  match src.field? (Param.key p.1) with
  | some q => (f q.2 p.2).Reaches n
  | none => Param.isOpt p.1 ∧ n ≤ 4

lemma found_iff (hn : n ≤ 5) {p : Param} : Found n f s p ↔ missing s p = false ∧
    ∀ g, added f s p = some g → g.Reaches n := by
  unfold Found missing added
  cases s.field? (Param.key p.1) with
  | none => simp
  | some q =>
    dsimp only
    split
    · next hsame => simp [Fit.reaches_of_level hsame hn]
    · simp

lemma reaches_sum : (sum f s ps acc).Reaches n ↔ acc.Reaches n ∧ ∀ p ∈ ps, ∀ g, added f s p =
    some g → g.Reaches n := by
  rw [sum, Fit.reaches_foldl_weaker]
  refine and_congr_right' ⟨fun h p hp g hg => h g (mem_filterMap.2 ⟨p, hp, hg⟩), fun h g hg => ?_⟩
  obtain ⟨p, hp, hadded⟩ := mem_filterMap.1 hg
  exact h p hp g hadded

lemma count_of_found (h : ∀ p ∈ ps, Found 5 f s p) : count s ps = ps.length := by
  refine countP_eq_length.2 fun p hp => ?_
  have hfound := h p hp
  rw [Found] at hfound
  split at hfound
  · next hq => simp [hq]
  · omega

/-- Objects are compared by the fields of the destination. They are the same only if they have the
same name and if the source has no further fields. -/
lemma reaches_fitObjects (hn : 4 ≤ n ∧ n ≤ 5) : (fitObjects f s d).Reaches n ↔
    s.isDetailed ∧ (d.isDetailed → ∀ p ∈ d.params, Found n f s p) ∧
      (n = 5 → d.isDetailed ∧ s.name = d.name ∧ s.params.length ≤ d.params.length) := by
  obtain ⟨hge, hle⟩ := hn
  cases hs : s.isDetailed with
  | false =>
    rw [fitObjects, hs]
    simp only [Fit.reaches_checkElem, Bool.false_eq_true, false_and, iff_false]
    omega
  | true =>
    cases hd : d.isDetailed with
    | false =>
      rw [fitObjects, hs, hd]
      simp only [Fit.reaches_widen, Bool.false_eq_true, false_implies, false_and,
        imp_false, true_and]
      omega
    | true =>
      have hstart : (if s.name = d.name then Fit.same else Fit.equal).Reaches n ↔
        (n = 5 → s.name = d.name) := by
        split <;> simp [*]
        omega
      have hfound : (∀ p ∈ d.params, Found n f s p) ↔
          d.params.any (missing s) = false ∧ ∀ p ∈ d.params, ∀ g, added f s p = some g →
          g.Reaches n := by
        simp [found_iff hle, forall₂_and]
      have hsum : (sum f s d.params (if s.name = d.name then .same else .equal)).Reaches n ↔ _ :=
        reaches_sum.trans (and_congr_left' hstart)
      simp only [forall_const, true_and, fitObjects_eq hs hd, walked, settled?, Nat.zero_add]
      generalize sum f s d.params (if s.name = d.name then .same else .equal) = acc at hsum
      cases hmissing : d.params.any (missing s) with
      | true =>
        refine iff_of_false (by simp; omega) fun h => ?_
        simpa [hmissing] using (hfound.1 h.1).1
      | false =>
        rw [hmissing, and_iff_right rfl] at hfound
        rw [← hfound] at hsum
        cases hnone : acc.level == Fit.noneLevel with
        | true =>
          refine iff_of_false (by simp; omega) fun h => ?_
          exact Fit.not_reaches_of_level hnone (by omega) (hsum.2 ⟨fun hn => (h.2 hn).1, h.1⟩)
        | false =>
          have hlen (hn : n = 5) (h : ∀ p ∈ d.params, Found n f s p) : count s d.params =
            d.params.length := count_of_found (hn ▸ h)
          simp only [Bool.false_eq_true, ↓reduceIte]
          split <;> simp only [Fit.reaches_weaker, Fit.reaches_adding_elemBit, Fit.reaches_widen,
            hsum] <;> grind

/-! ## Containers -/

lemma fitContKinds_eq_none_iff {j k : Kind} : fitContKinds j k = none ↔
    j.family &&& k.family = 0 := by
  unfold fitContKinds
  dsimp only
  split_ifs <;> simp_all

section

variable {kinds : Fit} (hk : fitContKinds s.kind d.kind = some kinds)
include hk

lemma reaches_fitContKinds (hn : n ≤ 5) : kinds.Reaches n ↔
    (2 < n → s.kind.family &&& d.kind.family = d.kind.family) ∧
    (n = 5 → s.kind.family = d.kind.family) := by
  unfold fitContKinds at hk
  dsimp only at hk
  split_ifs at hk <;> cases hk <;> simp_all <;> grind

lemma reaches_fitContainers_elem (hn : n ≤ 5) (hs : s.kind.isObj = false)
    (hd : d.kind.isObj = false) : (fitContainers f s d).Reaches n ↔ kinds.Reaches n ∧
    (∀ x ∈ s.elem?, ∀ y ∈ d.elem?, (f x y).Reaches n) ∧
      (2 < n → d.elem?.isSome → s.elem?.isSome) ∧ (n = 5 → s.elem?.isSome → d.elem?.isSome) := by
  rw [fitContainers, hk]
  simp only [hs, hd, Bool.and_self, Bool.false_eq_true, ↓reduceIte]
  cases s.elem? with
  | none => cases d.elem? <;> simp
  | some x =>
    cases d.elem? with
    | none => simp; omega
    | some y =>
      dsimp only
      split
      · next hsame => simp [Fit.reaches_of_level hsame hn]
      · simp

lemma reaches_fitContainers_fields (hs : s.kind.isObj) (hd : d.kind.isObj = false) :
    (fitContainers f s d).Reaches n ↔ kinds.Reaches n ∧ ∀ p ∈ s.params, ∀ y ∈ d.elem?,
    (f p.2 y).Reaches n := by
  have hfold (y : Ty) :
    (s.params.foldl (fun acc p => acc.weaker ((f p.2 y).adding Fit.elemBit)) kinds).Reaches n ↔
      kinds.Reaches n ∧ ∀ p ∈ s.params, (f p.2 y).Reaches n := by
    rw [← foldl_map (g := Fit.weaker), Fit.reaches_foldl_weaker, forall_mem_map]
    simp only [Fit.reaches_adding_elemBit]
  rw [fitContainers, hk]
  simp only [hs, hd]
  cases d.elem? with
  | none => simp
  | some y => simpa using hfold y

end

/-! ## Marks -/

lemma reaches_fitWith (hn : 4 ≤ n ∧ n ≤ 5) : (fitWith f s d).Reaches n ↔
    (s.isAny ∨ d.isAny ∨ (s.isOpt → d.isOpt) ∧ (n = 5 → d.isOpt → s.isOpt)) ∧
    (fitPlain f s.deopt d.deopt).Reaches n := by
  have hcap (g : Fit) : ((g.adding Fit.wrapBit).cap Fit.equalLevel).Reaches n ↔
    g.Reaches n ∧ n ≤ 4 := by
    rw [Fit.reaches_cap (by decide), Fit.reaches_adding (by decide)]
    rfl
  have hcap' (g : Fit) : ((g.adding Fit.unwrapBit).cap Fit.checkLevel).Reaches n ↔
    g.Reaches n ∧ n ≤ 2 := by
    rw [Fit.reaches_cap (by decide), Fit.reaches_adding (by decide)]
    rfl
  rw [fitWith]
  generalize fitPlain f s.deopt d.deopt = g
  split
  · next hguard =>
    refine ⟨fun h => ⟨?_, h⟩, And.right⟩
    have hcompatible : g.isCompatible := g.isCompatible_iff.2 (le_trans (by omega) h)
    simp only [hcompatible, Bool.not_true, Bool.false_or, Bool.or_eq_true] at hguard
    exact or_assoc.1 (.inl hguard)
  · next hguard =>
    simp only [Bool.or_eq_true, not_or] at hguard
    cases s.isOpt <;> cases d.isOpt <;> simp [hguard, hcap, hcap'] <;> grind

lemma reaches_fitPlain (hn : 4 ≤ n) (hne : equal s d = false) : (fitPlain f s d).Reaches n ↔
    (s.kind.isCtx = false ∧ d.kind.isCtx = false) ∧ (s.isAny = false ∧ d.isAny = false) ∧
    (s.isVoid = false ∧ d.isVoid = false) ∧
      (if s.kind.isCont && d.kind.isCont then fitContainers f s d else fitKinds s d).Reaches n := by
  rw [fitPlain, hne]
  cases s.kind.isCtx <;> cases d.kind.isCtx <;> cases d.isAny <;> cases s.isAny <;>
    cases s.isVoid <;> cases d.isVoid <;> simp <;> omega

end Ty

end Resolvent
