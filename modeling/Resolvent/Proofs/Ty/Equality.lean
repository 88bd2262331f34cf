import Resolvent.Ty.Equality
import Mathlib.Data.List.Basic

/-!
# Equality of types without self references

Comparing two types goes down both of them at once, and up again only from a self reference.
-/

namespace Resolvent.Ty

open List

variable {ps qs : List Param} {fuel : Nat}

mutual

/-- No self reference stands anywhere in the type. -/
def selfFree : Ty → Bool
  | plain k => !k.isSelf
  | detailed k _ ps _ => !k.isSelf && selfFreeParams ps

def selfFreeParams : List (String × Ty) → Bool
  | [] => true
  | (_, t) :: ps => t.selfFree && selfFreeParams ps

end

lemma selfFreeParams_iff : selfFreeParams ps ↔ ∀ p ∈ ps, p.2.selfFree := by
  induction ps with
  | nil => simp [selfFreeParams]
  | cons p ps ih => simp [selfFreeParams, ih]

lemma selfFree_iff {t : Ty} : t.selfFree ↔ t.kind.isSelf = false ∧ ∀ p ∈ t.params,
    p.2.selfFree := by
  cases t with
  | plain k => simp [selfFree, kind, params]
  | detailed k n ps cs => simp [selfFree, kind, params, selfFreeParams_iff]

lemma sizeParams_mem {p : Param} (h : p ∈ ps) : p.2.size ≤ sizeParams ps := by
  induction ps with
  | nil => cases h
  | cons q ps ih =>
    rw [sizeParams]
    rcases mem_cons.1 h with rfl | h
    · omega
    · have := ih h
      omega

lemma size_lt_of_mem_params {t : Ty} {p : Param} (h : p ∈ t.params) : p.2.size < t.size := by
  cases t with
  | plain k => cases h
  | detailed k name ps cs =>
    have hle := sizeParams_mem (show p ∈ ps from h)
    rw [size]
    omega

/-! ## Parameters in pairs -/

variable {same : Nat → Ty → Ty → Option Bool} {seen : List (List Nat × List Nat)}

lemma equalParams_self (h : ∀ i, ∀ p ∈ ps, same i p.2 p.2 = some true) (i : Nat) :
    equalParams same i ps ps = some true := by
  induction ps generalizing i with
  | nil => rfl
  | cons p ps ih =>
    rw [equalParams, if_pos rfl, h i p (by simp)]
    exact ih (fun j q hq => h j q (by simp [hq])) (i + 1)

lemma eq_of_equalParams {i : Nat}
    (h : ∀ j, ∀ p ∈ ps, ∀ q ∈ qs, same j p.2 q.2 = some true → p.2 = q.2)
    (heq : equalParams same i ps qs = some true) : ps = qs := by
  induction ps generalizing qs i with
  | nil =>
    cases qs with
    | nil => rfl
    | cons q qs => simp [equalParams] at heq
  | cons p ps ih =>
    cases qs with
    | nil => simp [equalParams] at heq
    | cons q qs =>
      obtain ⟨n, t⟩ := p
      obtain ⟨m, u⟩ := q
      rw [equalParams] at heq
      split at heq
      · next hname =>
        cases hsame : same i t u with
        | none => simp [hsame] at heq
        | some verdict =>
          cases verdict with
          | false => simp [hsame] at heq
          | true =>
            rw [hsame] at heq
            have htype : t = u := h i (n, t) (by simp) (m, u) (by simp) hsame
            rw [hname, htype, ih (fun j p hp q hq => h j p (by simp [hp]) q (by simp [hq])) heq]
      · cases heq

/-! ## Types -/

lemma equalAt_of_same_isSelf {a b : Site} {ka kb : Kind} (h : ka.isSelf = kb.isSelf) :
    equalAt (fuel + 1) a ka b kb seen = if ka = kb then
        match a.node, b.node with
        | plain _, plain _ => some true
        | detailed _ n ps cs, detailed _ m qs ds =>
          if seen.contains (a.path, b.path) then some true
          else if n = m ∧ cs = ds ∧ ps.length = qs.length then
            equalParams (fun i t u =>
              equalAt fuel (a.child i t) t.kind (b.child i u) u.kind ((a.path, b.path) :: seen)) 0
              ps qs else some false
        | _, _ => some false else some false := by
  rw [equalAt, h]
  cases kb.isSelf <;> rfl

lemma equalAt_self {a : Site} (hfuel : a.node.size ≤ fuel) :
    equalAt fuel a a.node.kind a a.node.kind seen = some true := by
  induction fuel generalizing a seen with
  | zero =>
    have hpos : 0 < a.node.size := by cases a.node <;> simp only [size] <;> omega
    omega
  | succ fuel ih =>
    rw [equalAt_of_same_isSelf rfl, if_pos rfl]
    cases hnode : a.node with
    | plain k => rfl
    | detailed k n ps cs =>
      dsimp only
      split
      · rfl
      · rw [if_pos ⟨rfl, rfl, rfl⟩]
        refine equalParams_self (fun i p hp => ih (a := a.child i p.2) ?_) 0
        have hle := sizeParams_mem hp
        simp only [hnode, size] at hfuel
        simp only [Site.child]
        omega

lemma equal_self (t : Ty) : equal t t := by
  have hbudget : t.size ≤ equalBudget t t := by
    unfold equalBudget
    have : 1 * t.size ≤ (t.size * t.size + 1) * (t.size + t.size + 2) :=
      Nat.mul_le_mul (by omega) (by omega)
    omega
  rw [equal, equal?, equalAt_self (a := ⟨t, [], []⟩) hbudget]
  rfl

lemma eq_of_equalAt {a b : Site} (ha : a.node.selfFree) (hb : b.node.selfFree)
    (hseen : ∀ p ∈ seen, p.1.length < a.path.length)
    (h : equalAt fuel a a.node.kind b b.node.kind seen = some true) : a.node = b.node := by
  induction fuel generalizing a b seen with
  | zero => simp [equalAt] at h
  | succ fuel ih =>
    obtain ⟨hka, hpa⟩ := selfFree_iff.1 ha
    obtain ⟨hkb, hpb⟩ := selfFree_iff.1 hb
    rw [equalAt_of_same_isSelf (hka.trans hkb.symm)] at h
    split at h
    · next hkind =>
      have hnew : seen.contains (a.path, b.path) = false := by
        rw [Bool.eq_false_iff]
        intro hmem
        exact absurd (hseen _ (contains_iff_mem.1 hmem)) (Nat.lt_irrefl _)
      cases hna : a.node with
      | plain k =>
        cases hnb : b.node with
        | plain k' => simpa [hna, hnb, kind] using hkind
        | detailed k' m qs ds => simp [hna, hnb] at h
      | detailed k n ps cs =>
        cases hnb : b.node with
        | plain k' => simp [hna, hnb] at h
        | detailed k' m qs ds =>
          simp only [hna, hnb, hnew, Bool.false_eq_true, if_false] at h hkind hpa hpb
          split at h
          · next hdata =>
            obtain ⟨rfl, rfl, -⟩ := hdata
            obtain rfl : k = k' := hkind
            refine congrArg (detailed k n · cs) (eq_of_equalParams (fun j p hp q hq hsame => ?_) h)
            refine ih (a := a.child j p.2) (b := b.child j q.2) (hpa p hp) (hpb q hq) ?_ hsame
            intro pair hpair
            rcases mem_cons.1 hpair with rfl | hpair
            · simp [Site.child]
            · have := hseen pair hpair
              simp only [Site.child, length_cons]
              omega
          · cases h
    · cases h

lemma eq_of_equal {t u : Ty} (ht : t.selfFree) (hu : u.selfFree) (h : equal t u) : t = u := by
  unfold equal equal? at h
  cases hverdict : equalAt (equalBudget t u) ⟨t, [], []⟩ t.kind ⟨u, [], []⟩ u.kind [] with
  | none => simp [hverdict] at h
  | some verdict =>
    rw [hverdict] at h
    obtain rfl : verdict = true := h
    exact eq_of_equalAt (a := ⟨t, [], []⟩) (b := ⟨u, [], []⟩) ht hu (by simp) hverdict

lemma equal_eq_false {a b : Ty} (hself : b.kind.isSelf = false) (hne : a.kind ≠ b.kind) :
    equal a b = false := by
  obtain ⟨fuel, hfuel⟩ : ∃ fuel, equalBudget a b = fuel + 1 :=
    ⟨equalBudget a b - 1, (Nat.sub_add_cancel (Nat.mul_pos (Nat.succ_pos _) (Nat.succ_pos _))).symm⟩
  have habove : (⟨a, [], []⟩ : Site).enclosing? a.kind.slot = none := by
    unfold Site.enclosing?
    split
    · rfl
    · simp
  unfold equal equal?
  rw [hfuel, equalAt, hself]
  cases a.kind.isSelf
  · simp [hne]
  · simp [habove]

end Resolvent.Ty
