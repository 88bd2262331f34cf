import Resolvent.Proofs.Subst.Search
import Resolvent.Session.Resolve

/-!
# What steps on a session do

`Ends m s Q` says that the steps `m`, run from the session `s`, end in an outcome and a session of
which `Q` holds.
-/

namespace Resolvent.Run

variable {α β : Type} {s s' : Session} {Q Q' : Except Failure α → Session → Prop}
  {P : Except Failure β → Session → Prop} {m : Run α}
  {k : α → Run β} {r x : Except Failure α} {id : Nat} {span : Span}

theorem exec_bind (m : Run α) (k : α → Run β) (s : Session) : (m >>= k).exec s = match m.exec s with
      | (.ok a, s') => (k a).exec s'
      | (.error e, s') => (.error e, s') := by
  rw [exec, run_bind, exec]
  rcases StateT.run (ExceptT.run m) s with ⟨_ | _, _⟩ <;> rfl

theorem exec_bind_of_ok {a : α} (h : m.exec s = (.ok a, s')) (k : α → Run β) :
    (m >>= k).exec s = (k a).exec s' := by
  rw [exec_bind, h]

theorem exec_bind_eq_ok {b : β} (h : (m >>= k).exec s = (.ok b, s')) :
    ∃ a s₁, m.exec s = (.ok a, s₁) ∧ (k a).exec s₁ = (.ok b, s') := by
  rw [exec_bind] at h
  rcases hm : m.exec s with ⟨_ | a, s₁⟩ <;> rw [hm] at h
  · cases h
  · exact ⟨a, s₁, rfl, h⟩

theorem exec_get_bind (k : Session → Run α) (s : Session) : (get >>= k).exec s = (k s).exec s := rfl

theorem exec_attempt_bind (m : Run α) (k : Except Failure α → Run β) (s : Session) :
    (m.attempt >>= k).exec s = (k (m.exec s).1).exec (m.exec s).2 :=
  rfl

theorem exec_ofExcept (x : Except Failure α) (s : Session) :
    (ofExcept x : Run α).exec s = (x, s) := by
  cases x <;> rfl

theorem exec_solve (m : Solve α) (span : Span) (s : Session) : (solve m span).exec s =
      ((m.exec s.subst).1.mapError (Failure.typing · span),
      { s with subst := (m.exec s.subst).2 }) := by
  rw [solve, exec_get_bind]
  rcases m.exec s.subst with ⟨_ | _, _⟩ <;> rfl

/-- The steps end in an outcome and a session of which `Q` holds. -/
def Ends (m : Run α) (s : Session) (Q : Except Failure α → Session → Prop) : Prop :=
  Q (m.exec s).1 (m.exec s).2

namespace Ends

theorem of_exec (h : m.exec s = (r, s')) (hQ : Q r s') : Ends m s Q := by
  simpa [Ends, h] using hQ

theorem at_exec (h : Ends m s Q) (hm : m.exec s = (r, s')) : Q r s' := by
  simpa [Ends, hm] using h

theorem mono (h : Ends m s Q) (hQ : ∀ r s', Q r s' → Q' r s') : Ends m s Q' :=
  hQ _ _ h

theorem and (h : Ends m s Q) (h' : Ends m s Q') : Ends m s fun r s' => Q r s' ∧ Q' r s' :=
  ⟨h, h'⟩

theorem imp {p : Prop} (h : p → Ends m s Q) : Ends m s fun r s' => p → Q r s' := h

theorem pure {x : α} (h : Q (.ok x) s) : Ends (Pure.pure x) s Q := h

theorem throw {e : Failure} (h : Q (.error e) s) : Ends (MonadExcept.throw e) s Q := h

/-- Steps and what follows them. -/
theorem bind (h : Ends m s Q) (hok : ∀ a s', Q (.ok a) s' → Ends (k a) s' P)
    (herr : ∀ e s', Q (.error e) s' → P (.error e) s') : Ends (m >>= k) s P := by
  unfold Ends at h ⊢
  rw [exec_bind]
  rcases hm : m.exec s with ⟨_ | a, s'⟩ <;> rw [hm] at h
  · exact herr _ _ h
  · exact hok a s' h

theorem get_bind {k : Session → Run α} (h : Ends (k s) s Q) : Ends (get >>= k) s Q := h

theorem ofExcept_bind (hok : ∀ a, x = .ok a → Ends (k a) s P)
    (herr : ∀ e, x = .error e → P (.error e) s) : Ends (ofExcept x >>= k) s P := by
  cases x with
  | ok a => exact hok a rfl
  | error e => exact herr e rfl

theorem attempt_bind {k : Except Failure α → Run β} (h : Ends m s fun r s' => Ends (k r) s' P) :
    Ends (m.attempt >>= k) s P :=
  h

theorem ite {c : Prop} [Decidable c] {m' : Run α} (ht : c → Ends m s Q) (hf : ¬ c → Ends m' s Q) :
    Ends (if c then m else m') s Q := by
  split
  · next hc => exact ht hc
  · next hc => exact hf hc

theorem alloc_bind {c : Content} {k : Nat → Run α}
    (h : Ends (k s.store.size) { s with store := (s.store.alloc c span).2 } Q) :
    Ends (alloc c span >>= k) s Q :=
  h

theorem spanOf_bind {k : Span → Run α} (h : Ends (k (s.store.span id)) s Q) :
    Ends (spanOf id >>= k) s Q := h

theorem typeOf_bind {k : Ty → Run α} (h : Ends (k (s.typeOf id)) s Q) :
    Ends (Run.typeOf id >>= k) s Q := h

theorem val?_bind {k : Option Val → Run α} (h : Ends (k (s.store.val? id)) s Q) :
    Ends (val? id >>= k) s Q :=
  h

theorem solve_bind {m : Solve α}
    (hok : ∀ a σ, m.exec s.subst = (.ok a, σ) → Ends (k a) { s with subst := σ } P)
    (herr : ∀ e σ, m.exec s.subst = (.error e, σ) →
    P (.error (.typing e span)) { s with subst := σ }) : Ends (solve m span >>= k) s P := by
  unfold Ends
  rw [exec_bind, exec_solve]
  rcases hm : m.exec s.subst with ⟨e | a, σ⟩
  · exact herr e σ hm
  · exact hok a σ hm

end Ends

end Resolvent.Run
