import Resolvent.Proofs.Residual.Element
import Resolvent.Proofs.Subst.Termination

/-!
# What is expected of arguments

The types that arguments are unified with: none, any type, texts, numbers by the type variable of a
sum, or the type variable of a conditional.
-/

namespace Resolvent

open List Bool

namespace Ty

@[simp] lemma outerVars_plain {k : Kind} (h : k.isVar = false) : (plain k).outerVars = [] := by
  simp [outerVars_of_not_isVar (t := plain k) h, params]

end Ty

namespace Subst

open Solve

variable {s s' : Subst} {k : Kind}

lemma Sound.apply_plain (h : s.Sound) (hk : k.isVar = false) : s.apply (.plain k) = .plain k := by
  rw [h.apply_of_unbound (by simp [hk]), Ty.settled_of_not_isVar (t := .plain k) hk]
  rfl

lemma Sound.exec_choose_plain (h : s.Sound) (hv : k.isVar = false) (ha : k.isAlt = false) :
    (choose (.plain k)).exec s = (.ok (.plain k), s) := by
  rw [h.exec_choose, chooseWith, exec_get_bind, h.apply_plain hv]
  simp only [Ty.kind, hv, ha]
  rfl

lemma Sound.exec_unify_plain (h : s.Sound) {j : Kind} (hj : j.isVar = false ∧ j.isAlt = false)
    (hk : k.isVar = false ∧ k.isAlt = false) : (unify (.plain j) (.plain k)).exec s =
      if Ty.equal (.plain j) (.plain k) then (.ok (.plain j), s)
      else (unifyPlain unify choose (.plain j) (.plain k)).exec s := by
  have hbound {k : Kind} (hk : k.isVar = false) : s.isBound (.plain k) = false := by
    simp [isBound, Ty.varId?, Ty.kind, hk]
  rw [h.exec_unify, unifyWith, exec_get_bind, h.apply_plain hj.1, h.apply_plain hk.1]
  simp only [Ty.kind, hj.1, hk.1, hbound hj.1, hbound hk.1, false_eq_true, ↓reduceIte]
  split
  · rfl
  · rw [exec_bind, h.exec_choose_plain hj.1 hj.2]
    simp only
    rw [exec_bind, h.exec_choose_plain hk.1 hk.2]
    simp only
    rw [exec_bind]
    rcases (unifyPlain unify choose (.plain j) (.plain k)).exec s with ⟨_ | _, _⟩ <;> rfl

/-! ## Unifying with a variable -/

section

variable {i : Nat} {cs : List Ty} {t u : Ty}

lemma Sound.bound_of_unify (h : s.Sound) (ht : (s.apply t).kind.isVar = false)
    (hok : (unify t (.var i cs)).exec s = (.ok u, s')) : (s'.get? i).isSome := by
  cases hi : s.get? i with
  | some b =>
    have hpost := (h.within_support [t, .var i cs]).post_unify (a := t) (b := .var i cs)
      (over_support (by simp)) (over_support (by simp))
    rw [hok] at hpost
    exact hpost.grown.bound i (by simp [hi])
  | none =>
    have hne : Ty.equal (s.apply t) (.var i cs) = false := by
      refine Ty.equal_eq_false (by rw [Ty.kind_var]; rfl) fun heq => ?_
      simp [heq] at ht
    rw [h.exec_unify, unifyWith, exec_get_bind, h.apply_var_unbound hi] at hok
    simp only [hne, ht, Ty.isVar_var, false_eq_true, ↓reduceIte] at hok
    -- What is left is `bindVar`, which ends with the binding unless it fails.
    have hbind (σ : Subst) (v : Ty)
      (hσ : (do bind (.var i cs) v; return s.apply t : Solve Ty).exec σ = (.ok u, s')) :
        (s'.get? i).isSome := by
      rw [exec_bind, exec_bindTo, Ty.varId?_var] at hσ
      cases i with
      | zero => cases hσ
      | succ i =>
        cases hocc : σ.occurs (i + 1) v with
        | true => simp [hocc] at hσ
        | false =>
          simp only [hocc, false_eq_true, ↓reduceIte, exec_pure, Prod.mk.injEq] at hσ
          simp [← hσ.2]
    have hnone : (s.apply t).varId? = none := by simp [Ty.varId?, ht]
    unfold bindVar at hok
    simp only [hnone] at hok
    split at hok
    · exact hbind s _ hok
    · rw [exec_bind] at hok
      split at hok
      · next c σ _ =>
        split at hok
        · exact hbind σ _ hok
        · cases hok
      · cases hok

end

lemma Sound.exec_unify_unbound (h : s.Sound) {i : Nat} {cs : List Ty} (hi : 0 < i)
    (hnone : s.get? i = none) (hk : k.isVar = false ∧ k.isAlt = false)
    (hcs : cs = [] ∨ cs.any fun c => (Ty.fit (.plain k) c).isCompatible) :
    (unify (.plain k) (.var i cs)).exec s = (.ok (.plain k), s.assign i (.plain k)) := by
  have hocc : s.occurs i (.plain k) = false := by
    rw [eq_false_iff, Ne, h.occurs_iff]
    rintro ⟨j, hj, _⟩
    rw [links, Ty.gather_of_not_isVar (t := .plain k) hk.1] at hj
    cases hj
  have hne : Ty.equal (.plain k) (.var i cs) = false := by
    refine Ty.equal_eq_false (by rw [Ty.kind_var]; rfl) fun heq => ?_
    have hvar : (Ty.plain k).kind.isVar = true := by rw [heq, Ty.isVar_var]
    simp [Ty.kind, hk.1] at hvar
  have hmembers : (Ty.var i cs).members = cs := by
    rw [Ty.members, Ty.isVar_var]
    cases cs <;> simp [Ty.var, Ty.params]
  obtain ⟨i, rfl⟩ : ∃ j, i = j + 1 := ⟨i - 1, by omega⟩
  have hbind : (do bind (.var (i + 1) cs) (.plain k); return Ty.plain k : Solve Ty).exec s =
      (.ok (.plain k), s.assign (i + 1) (.plain k)) := by
    rw [exec_bind, exec_bindTo, Ty.varId?_var]
    simp only [hocc, false_eq_true, ↓reduceIte, exec_pure]
  have hvar : (Ty.plain k).kind.isVar = false := hk.1
  have hid : (Ty.plain k).varId? = none := by simp [Ty.varId?, hvar]
  rw [h.exec_unify, unifyWith, exec_get_bind, h.apply_var_unbound hnone, h.apply_plain hk.1]
  simp only [hne, Ty.isVar_var, hvar, bindVar, hid, hmembers]
  rcases hcs with rfl | hfit
  · exact hbind
  · cases cs with
    | nil => exact hbind
    | cons c cs =>
      simp only [isEmpty_cons, false_eq_true, ↓reduceIte]
      rw [exec_bind, h.exec_choose_plain hk.1 hk.2]
      simp only [hfit]
      exact hbind

lemma Sound.exec_unify_int (h : s.Sound) {i : Nat} (hi : 0 < i)
    (hopen : s.get? i = none ∨ s.get? i = some .int) :
    ∃ s', (unify .int (.var i [.num])).exec s = (.ok .int, s') ∧ s'.get? i = some .int := by
  rcases hopen with hnone | hsome
  · exact ⟨_, h.exec_unify_unbound hi hnone (by decide) (.inr (by decide)), get?_assign_self _ _ _⟩
  · refine ⟨s, ?_, hsome⟩
    have hint : s.apply .int = .int := h.apply_plain (by decide)
    rw [h.exec_unify, unifyWith, exec_get_bind, h.apply_var_bound hsome, hint]
    simp only [show Ty.equal .int .int = true by decide, ↓reduceIte, exec_pure]

end Subst

namespace Residual

open Solve

variable {s : Session} {σ σ' : Subst} {t u : Ty} {v : Val}

lemma Fine.outerVars_apply (hs : Fine s) (ht : ∀ i ∈ t.outerVars, (s.subst.get? i).isSome) :
    (s.subst.apply t).outerVars = [] := by
  have hwithin : Subst.Within t.outerVars.toFinset s.subst :=
    ⟨hs.sound, fun i _ b hb j hj => by simp [hs.closed i b hb] at hj⟩
  by_contra hne
  obtain ⟨i, hi⟩ := exists_mem_of_ne_nil _ hne
  have hmem := hwithin.apply (t := t) (fun j hj => by simpa using hj) i hi
  have hbound := ht i (by simpa using hmem)
  rw [hs.sound.get?_of_mem_outerVars_apply hi] at hbound
  cases hbound

/-- What is expected of an argument. -/
inductive Hint where
  | void
  | any
  | text
  /-- A number, for the sum with the given type variable. -/
  | number (k : Nat)
  /-- A branch of the conditional with the given type variable. -/
  | branch (k : Nat)

namespace Hint

def ty : Hint → Ty
  | void => .void
  | any => .any
  | text => .char
  | number k => .var k [.num]
  | branch k => .var k []

def vars : Hint → List Nat
  | number k | branch k => [k]
  | void | any | text => []

def Accepts (σ : Subst) : Hint → Val → Prop
  | void, _ | any, _ => True
  | text, v => Folder.concat.admits v
  | number k, v => (∃ n, v = .int n) ∧ Open σ k
  | branch k, _ => σ.get? k = none

lemma grows (h : Hint) (hs : Fine s) (hV : ∀ k ∈ h.vars, k ≤ s.subst.size) (ht : t.outerVars = []) :
    Grows h.vars s { s with subst := ((Subst.unify t h.ty).exec s.subst).2 } := by
  have hwithin : Subst.Within h.vars.toFinset s.subst :=
    ⟨hs.sound, fun i _ b hb j hj => by simp [hs.closed i b hb] at hj⟩
  have hty : h.ty.Over h.vars.toFinset := by
    intro i hi
    cases h with
    | number k | branch k => simpa [ty, vars, Ty.outerVars_of_isVar] using hi
    | void | any | text => exact absurd hi not_mem_nil
  have hg := (hwithin.post_unify (a := t) (by simp [Ty.Over, ht]) hty).grown
  refine ⟨⟨hs.catalog, hg.within.sound, fun i b hb => ?_⟩, .refl _, rfl, hg.size_le, hg.bound,
    fun i _ hi => ?_⟩
  · by_cases hi : i ∈ h.vars
    · -- A binding within the set of one variable that mentions a variable would lead back.
      by_contra hne
      obtain ⟨j, hj⟩ := exists_mem_of_ne_nil _ hne
      have hjV := List.mem_toFinset.1 (hg.within.closed i (by simpa using hi) b hb j hj)
      cases h with
      | number k | branch k =>
        obtain rfl : i = k := by simpa [vars] using hi
        obtain rfl : j = i := by simpa [vars] using hjV
        exact hg.within.sound.acyclic j (.single ⟨b, hb, Subst.outerVars_subset_links _ _ hj⟩)
      | void | any | text => simp [vars] at hi
    · rw [hg.frame i (by simpa using hi)] at hb
      exact hs.closed i b hb
  · exact hg.frame i (by simpa using hi)

lemma exists_plain_typeOf (hv : v.isScalar) : ∃ k : Kind, v.typeOf = .plain k ∧ k.isVar = false ∧
    k.isAlt = false := by
  cases v with
  | null | bool | int | str => exact ⟨_, rfl, by decide, by decide⟩
  | _ => simp [Val.isScalar] at hv

lemma unify_any (h : σ.Sound) (hv : v.isScalar) :
    ∃ u, (Subst.unify v.typeOf .any).exec σ = (.ok u, σ) := by
  obtain ⟨k, hk, hplain⟩ := exists_plain_typeOf hv
  rw [hk, Ty.any, h.exec_unify_plain hplain (by decide), ← hk]
  cases v with
  | null | bool | int | str => exact ⟨_, rfl⟩
  | _ => simp [Val.isScalar] at hv

lemma unify_char (h : σ.Sound) (hv : Folder.concat.admits v) :
    ∃ u, (Subst.unify v.typeOf .char).exec σ = (.ok u, σ) := by
  have hplain (k : Kind) (hk : k.isVar = false ∧ k.isAlt = false) :=
    h.exec_unify_plain hk (k := .char) (by decide)
  cases v with
  | null => exact ⟨Ty.char.opt, (hplain Kind.any.opt (by decide)).trans rfl⟩
  | str => exact ⟨.char, (hplain .str (by decide)).trans rfl⟩
  | _ => simp [Folder.admits] at hv

lemma admits_of_unify_char (h : σ.Sound) (hv : v.isScalar)
    (hok : (Subst.unify v.typeOf .char).exec σ = (.ok u, σ')) : Folder.concat.admits v := by
  have hplain (k : Kind) (hk : k.isVar = false ∧ k.isAlt = false) :=
    h.exec_unify_plain hk (k := .char) (by decide)
  cases v with
  | null | str => rfl
  | bool =>
    have herr : (Subst.unify .bool .char).exec σ = (.error (.noCommonType .bool .char), σ) :=
      (hplain .bool (by decide)).trans rfl
    rw [Val.typeOf, herr] at hok
    cases hok
  | int =>
    have herr : (Subst.unify .int .char).exec σ = (.error (.noCommonType .int .char), σ) :=
      (hplain .int (by decide)).trans rfl
    rw [Val.typeOf, herr] at hok
    cases hok
  | _ => simp [Val.isScalar] at hv

lemma Accepts.unify {h : Hint} (ha : h.Accepts σ v) (hσ : σ.Sound) (hv : v.isScalar)
    (hvoid : h ≠ void) (hpos : ∀ k ∈ h.vars, 0 < k) :
    ∃ u σ', (Subst.unify v.typeOf h.ty).exec σ = (.ok u, σ') := by
  cases h with
  | void => exact absurd rfl hvoid
  | any =>
    obtain ⟨u, hu⟩ := unify_any hσ hv
    exact ⟨u, σ, hu⟩
  | text =>
    obtain ⟨u, hu⟩ := unify_char hσ ha
    exact ⟨u, σ, hu⟩
  | number k =>
    obtain ⟨⟨n, rfl⟩, hopen⟩ := ha
    obtain ⟨σ', hσ', _⟩ := hσ.exec_unify_int (hpos k (by simp [vars])) hopen
    exact ⟨.int, σ', hσ'⟩
  | branch k =>
    obtain ⟨kind, hkind, hplain⟩ := exists_plain_typeOf hv
    rw [hkind, ty]
    exact ⟨_, _, hσ.exec_unify_unbound (hpos k (by simp [vars])) ha hplain (.inl rfl)⟩

end Hint

end Residual

end Resolvent
