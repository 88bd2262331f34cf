import Resolvent.Proofs.Session.Lawful

/-!
# Resolving ends

Resolving goes on to elements that were not there at the start: an expression becomes a call over
its resolved head, and two negations become a call that is resolved in their place.
-/

namespace Resolvent

open Run

variable {names : String → Prop} {s : Session}

/-- The plain recursion to a depth, beyond which `stop` takes over. All evaluating is up to `stop`.
-/
def Steps.deep (stop : Steps) : (depth : Nat) → Steps
  | 0 => stop
  | depth + 1 => { stop with resolve := Session.resolveStep (deep stop depth) }

/-- The steps resolve by the plain recursion at least to the depth, however they evaluate. -/
inductive Steps.Recursive : Nat → Steps → Prop
  | stop (steps : Steps) : Recursive 0 steps
  | step {n : Nat} {steps next : Steps} : Recursive n steps →
      next.resolve = Session.resolveStep steps → Recursive (n + 1) next

namespace Steps.Recursive

lemma deep (stop : Steps) {m n : Nat} (h : n ≤ m) : Recursive n (stop.deep m) := by
  induction n generalizing m with
  | zero => exact .stop _
  | succ n ih =>
    obtain ⟨m, rfl⟩ : ∃ m', m = m' + 1 := ⟨m - 1, by omega⟩
    exact .step (ih (by omega)) rfl

lemma ofFuel {fuel n : Nat} (h : n ≤ fuel) :
    Recursive n ⟨Session.resolveN fuel, Session.evalN fuel, Session.evalCallN fuel⟩ := by
  induction n generalizing fuel with
  | zero => exact .stop _
  | succ n ih =>
    obtain ⟨fuel, rfl⟩ : ∃ m, fuel = m + 1 := ⟨fuel - 1, by omega⟩
    exact .step (ih (by omega)) rfl

end Steps.Recursive

lemma Regime.handles_recursive {G : Regime} (hb : G.bounded) (n : Nat) :
    G.Handles (fun i : { steps : Steps // steps.Recursive n } => i.1) n := by
  induction n with
  | zero => exact fun m hm s scope id hint _ _ _ hid => absurd (hid.shallow hb).pos (by omega)
  | succ n ih =>
    intro m hm s scope id hint h hscope hhint hid
    obtain ⟨m, rfl⟩ : ∃ m', m = m' + 1 := ⟨m - 1, by have := (hid.shallow hb).pos; omega⟩
    have hR : G.Handles (fun i : { steps : Steps // steps.Recursive n } => i.1) m :=
      fun l hl => ih l (by omega)
    obtain ⟨r, s', hexec, hs', hr⟩ := upholds_resolveStep hR hscope h hhint hid
    refine ⟨r, s', ?_, hs', hr⟩
    rintro ⟨next, hnext⟩
    cases hnext with
    | @step _ steps _ hsteps hresolve =>
      change (next.resolve scope id hint).exec s = _
      rw [hresolve]
      exact hexec ⟨steps, hsteps⟩

/-- Elements are not to get deeper, and no budget is to run out. -/
def Regime.shallow (catalog : Catalog) (names : String → Prop) : Regime where
  catalog
  orderly := False
  whole := False
  bounded := True
  names
  done _ _ _ := True
  typed _ _ _ := True
  founded := .inr trivial
  kept _ _ := trivial
  steady _ _ _ := trivial
  named _ := trivial
  data _ _ _ := trivial
  call _ _ _ _ := trivial
  scope _ _ _ _ _ _ _ := trivial
  lambda _ _ _ _ _ _ _ := trivial

lemma Regime.admits_shallow (h : s.subst.Sound) : (shallow s.catalog names).Admits s :=
  ⟨rfl, nofun, nofun, fun _ => h⟩

namespace Session

lemma upholds_recursive {n id : Nat} (h : s.subst.Sound) (hid : s.store.Shallow names n id)
    (scope : Scope) (hint : Ty) : (Regime.shallow s.catalog names).Upholds n
    (fun i : { steps : Steps // steps.Recursive n } => i.1.resolve scope id hint) s
      fun r st => st.Shallow names n r :=
  (Regime.handles_recursive trivial n n le_rfl s scope id hint (Regime.admits_shallow h) nofun nofun
    ⟨hid.lt_size, fun _ => hid⟩).mono fun _ _ hr => hr.1.shallow trivial

/-- Resolving ends, for all elements, scopes and expectations and in both modes. The plain recursion
does not go deeper than the store has elements, whatever would take over there and whatever
evaluating would do; and no budget runs out. -/
theorem resolve_terminates {s : Session} (hstore : s.store.Founded)
    (hsubst : s.subst.Sound) {id : Nat} (hid : id < s.store.size) (scope : Scope) (hint : Ty) :
    (∀ n ≥ s.store.size, ∀ stop : Steps,
      ((stop.deep n).resolve scope id hint).exec s = (resolve scope id hint).exec s) ∧
    ∀ e, ((resolve scope id hint).exec s).1 = .error e → e.isExhausted = false := by
  obtain ⟨r, s', hexec, _, hr⟩ := upholds_recursive hsubst (hstore.shallow hid) scope hint
  have hfuel (fuel : Nat) (hn : s.store.size ≤ fuel) :
    (resolveN fuel scope id hint).exec s = (r, s') := hexec ⟨_, .ofFuel hn⟩
  have hrun : (resolve scope id hint).exec s = (r, s') := by
    rw [resolve, exec_get_bind]
    exact hfuel _ (by rw [stepBudget]; omega)
  refine ⟨fun n hn stop => ?_, fun e he => ?_⟩
  · rw [hrun]
    exact hexec ⟨_, .deep stop hn⟩
  · rw [hrun] at he
    subst he
    exact hr.1 trivial

/-- Two negations around an expression whose head is an expression, over a name that nothing
defines, in a lenient session. -/
theorem resolve_terminates_negations : let name (n : String) : Form := .name n none ⟨0, 0⟩
    let head : Form := .expr [.literal (.int 1) ⟨0, 0⟩] ⟨0, 0⟩
    let source : Form :=
      .expr [name "not", .expr [name "not", .expr [head, name "x"] ⟨0, 0⟩] ⟨0, 0⟩] ⟨0, 0⟩
    let s : Session := { new .builtins true with store := (Store.insertAll {} [source]).2 }
    s.store.Founded ∧ s.subst.Sound ∧ 7 < s.store.size ∧ (∀ n ≥ s.store.size, ∀ stop : Steps,
        ((stop.deep n).resolve [.catalog .builtins] 7 .void).exec s =
        (resolve [.catalog .builtins] 7 .void).exec s) ∧
      ∀ e, ((resolve [.catalog .builtins] 7 .void).exec s).1 = .error e →
      e.isExhausted = false := by
  intro name head source s
  have hfounded : s.store.Founded :=
    (Store.added_insertAll (.empty .builtins) [source] rfl).orderly.founded
  have hlt : 7 < s.store.size := by decide
  exact ⟨hfounded, .empty, hlt, resolve_terminates hfounded .empty hlt _ _⟩

end Session

end Resolvent
