import Resolvent.Subst.Unify
import Mathlib.Order.Filter.AtTopBot.Basic

/-!
# Families of searches

A search that calls other searches is one search for each choice of those.
-/

namespace Resolvent

/-! ## Steps that keep a state and may fail -/

lemma run_bind {ε σ α β : Type} (m : ExceptT ε (StateM σ) α)
    (k : α → ExceptT ε (StateM σ) β) (s : σ) :
    StateT.run (ExceptT.run (m >>= k)) s = match StateT.run (ExceptT.run m) s with
      | (.ok a, s') => StateT.run (ExceptT.run (k a)) s'
      | (.error e, s') => (.error e, s') := by
  rw [ExceptT.run_bind, StateT.run_bind]
  rcases hm : StateT.run (ExceptT.run m) s with ⟨_ | _, _⟩ <;> rfl

lemma eq_ok_of_toOption {ε σ α : Type} {x : Except ε α × σ} {a : α} (h : x.1.toOption = some a) :
    x = (.ok a, x.2) := by
  rcases x with ⟨_ | _, s⟩ <;> cases h
  rfl

variable {α β ι : Type} {m m' : Solve α} {k : α → Solve β} {r x : Except TyError α} {s' : Subst}
  {e : TyError}

namespace Solve

@[simp] lemma exec_pure (x : α) (s : Subst) : (pure x : Solve α).exec s = (.ok x, s) := rfl

@[simp] lemma exec_throw (e : TyError) (s : Subst) : (throw e : Solve α).exec s = (.error e, s) :=
  rfl

lemma exec_get_bind (k : Subst → Solve α) (s : Subst) : (get >>= k).exec s = (k s).exec s := rfl

lemma exec_bind (m : Solve α) (k : α → Solve β) (s : Subst) : (m >>= k).exec s = match m.exec s with
      | (.ok a, s') => (k a).exec s'
      | (.error e, s') => (.error e, s') := by
  rw [exec, run_bind, exec]
  rcases StateT.run (ExceptT.run m) s with ⟨_ | _, _⟩ <;> rfl

lemma exec_attempt (m : Solve α) (s : Subst) :
    m.attempt.exec s = (.ok (m.exec s).1, (m.exec s).2) := rfl

lemma exec_ofExcept (x : Except TyError α) (s : Subst) :
    (ofExcept x : Solve α).exec s = (x, s) := by cases x <;> rfl

lemma exec_bind_eq_ok {s : Subst} {y : β} :
    (m >>= k).exec s = (.ok y, s') ↔ ∃ x s₁, m.exec s = (.ok x, s₁) ∧
    (k x).exec s₁ = (.ok y, s') := by
  rw [exec_bind]
  rcases m.exec s with ⟨e | x, s₁⟩ <;> simp

/-- The search keeps an invariant of the substitution, and gives a result of which `P` holds or
fails. -/
def Keeps (I : Subst → Prop) (m : Solve α) (s : Subst) (P : α → Prop) : Prop :=
  I (m.exec s).2 ∧ ∀ x, (m.exec s).1 = .ok x → P x

namespace Keeps

variable {I : Subst → Prop} {s : Subst} {P : α → Prop} {Q : β → Prop}

lemma pure {x : α} (h : I s) (hx : P x) : Keeps I (Pure.pure x) s P := by
  refine ⟨h, fun y hy => ?_⟩
  cases hy
  exact hx

lemma throw (h : I s) : Keeps I (MonadExcept.throw e : Solve α) s P := ⟨h, nofun⟩

lemma bind (h : Keeps I m s P) (hk : ∀ x s', I s' → P x → Keeps I (k x) s' Q) :
    Keeps I (m >>= k) s Q := by
  unfold Keeps at h ⊢
  rw [exec_bind]
  rcases hm : m.exec s with ⟨e | x, s'⟩ <;> rw [hm] at h
  · exact ⟨h.1, nofun⟩
  · exact hk x s' h.1 (h.2 x rfl)

lemma get_bind {k : Subst → Solve β} (h : Keeps I (k s) s Q) : Keeps I (get >>= k) s Q := h

lemma ite {c : Prop} [Decidable c] (ht : c → Keeps I m s P) (hf : ¬ c → Keeps I m' s P) :
    Keeps I (if c then m else m') s P := by
  split
  · next hc => exact ht hc
  · next hc => exact hf hc

/-! Searches that leave the substitution as it is: -/

lemma still_bind (h : Keeps (Eq s) m s P) (hk : ∀ x, P x → Keeps (Eq s) (k x) s Q) :
    Keeps (Eq s) (m >>= k) s Q := by
  refine h.bind fun x s' hs' hx => ?_
  subst hs'
  exact hk x hx

lemma state_eq (h : Keeps (Eq s) m s P) (hm : m.exec s = (r, s')) : s' = s := by
  have hs := h.1
  rw [hm] at hs
  exact hs.symm

end Keeps

/-- Along `F` the members of a family all end in one outcome and one substitution, of which `Q`
holds. -/
def Settles (F : Filter ι) (m : ι → Solve α) (s : Subst) (Q : Except TyError α → Subst → Prop) :
    Prop :=
  ∃ r s', Q r s' ∧ ∀ᶠ i in F, (m i).exec s = (r, s')

namespace Settles

variable {F : Filter ι} {s : Subst} {Q Q' : Except TyError α → Subst → Prop}
  {P : Except TyError β → Subst → Prop}

lemma mono {m : ι → Solve α} (h : Settles F m s Q) (hQ : ∀ r s', Q r s' → Q' r s') :
    Settles F m s Q' := by
  obtain ⟨r, s', hr, hev⟩ := h
  exact ⟨r, s', hQ r s' hr, hev⟩

lemma of_exec (h : m.exec s = (r, s')) (hQ : Q r s') : Settles F (fun _ => m) s Q :=
  ⟨r, s', hQ, .of_forall fun _ => h⟩

lemma pure {x : α} (h : Q (.ok x) s) : Settles F (fun _ => Pure.pure x) s Q := of_exec rfl h

lemma throw (h : Q (.error e) s) : Settles F (fun _ => MonadExcept.throw e) s Q := of_exec rfl h

lemma ofExcept (h : Q x s) : Settles F (fun _ => MonadExcept.ofExcept x) s Q :=
  of_exec (exec_ofExcept x s) h

lemma get_bind {k : ι → Subst → Solve α} (h : Settles F (fun i => k i s) s Q) :
    Settles F (fun i => get >>= k i) s Q := h

lemma ite {c : Prop} [Decidable c] {m m' : ι → Solve α} (ht : c → Settles F m s Q)
    (hf : ¬ c → Settles F m' s Q) : Settles F (fun i => if c then m i else m' i) s Q := by
  by_cases hc : c
  · simpa only [hc, ↓reduceIte] using ht hc
  · simpa only [hc, ↓reduceIte] using hf hc

lemma bind {m : ι → Solve α} {k : ι → α → Solve β} (h : Settles F m s Q)
    (hok : ∀ a s', Q (.ok a) s' → Settles F (fun i => k i a) s' P)
    (herr : ∀ e s', Q (.error e) s' → P (.error e) s') : Settles F (fun i => m i >>= k i) s P := by
  obtain ⟨r, s₁, hr, hm⟩ := h
  cases r with
  | error e =>
    refine ⟨.error e, s₁, herr e s₁ hr, hm.mono fun i hi => ?_⟩
    rw [exec_bind, hi]
  | ok a =>
    obtain ⟨r', s₂, hr', hk⟩ := hok a s₁ hr
    refine ⟨r', s₂, hr', (hm.and hk).mono fun i hi => ?_⟩
    rw [exec_bind, hi.1]
    exact hi.2

lemma attempt {m : ι → Solve α} {Q : Except TyError (Except TyError α) → Subst → Prop}
    (h : Settles F m s fun r s' => Q (.ok r) s') : Settles F (fun i => (m i).attempt) s Q := by
  obtain ⟨r, s', hr, hm⟩ := h
  refine ⟨.ok r, s', hr, hm.mono fun i hi => ?_⟩
  rw [exec_attempt, hi]

lemma congr {m m' : ι → Solve α} (h : Settles F m s Q)
    (hm : ∀ᶠ i in F, (m' i).exec s = (m i).exec s) : Settles F m' s Q := by
  obtain ⟨r, s', hr, hev⟩ := h
  exact ⟨r, s', hr, (hev.and hm).mono fun i hi => hi.2.trans hi.1⟩

end Settles

end Solve

/-! ## The recursion of searches -/

/-- Induction over the searches that unifying and choosing are made of. Which search is run may
depend on the substitution and on the types that it is run for; apart from this there is only one
more step around a search. -/
lemma Subst.Searches.induct {Q : Searches → Prop} (none : Q .none) (step : ∀ r, Q r → Q r.step)
    (pick : ∀ (u : Ty → Ty → Subst → Searches) (c : Ty → Subst → Searches), (∀ a b s, Q (u a b s)) →
    (∀ t s, Q (c t s)) →
      Q ⟨fun a b => get >>= fun s => (u a b s).unify a b, fun t => get >>= fun s =>
      (c t s).choose t⟩) : Q ⟨Subst.unify, Subst.choose⟩ := by
  have hwhile (n : Nat) (same fewer : Searches) (hsame : Q same) (hfewer : Q fewer) :
    Q (whileBound n same fewer) := by
    have heq : whileBound n same fewer =
      ⟨fun a b => get >>= fun s => (if s.bindings.length = n then same else fewer).unify a b,
        fun t => get >>= fun s => (if s.bindings.length = n then same else fewer).choose t⟩ := by
      simp only [whileBound, apply_ite unify, apply_ite choose, ite_apply]
    have hite (s : Subst) : Q (if s.bindings.length = n then same else fewer) := by
      split
      · exact hsame
      · exact hfewer
    rw [heq]
    exact pick _ _ (fun _ _ => hite) fun _ => hite
  have hnested (fewer : Searches) (h : Q fewer) (n fuel : Nat) : Q (nested fewer n fuel) := by
    induction fuel with
    | zero => exact none
    | succ fuel ih => exact step _ (hwhile n _ _ ih h)
  have hbinding (vars : Nat) : Q (binding vars) := by
    induction vars with
    | zero => exact none
    | succ vars ih => exact pick _ _ (fun _ _ _ => hnested _ ih _ _) fun _ _ => hnested _ ih _ _
  exact pick _ _ (fun _ _ _ => hbinding _) fun _ _ => hbinding _

end Resolvent
