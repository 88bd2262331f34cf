import Resolvent.Proofs.Repeat.Resolve
import Resolvent.Proofs.Session.History

/-!
# Resolving a resolved element again

Resolving adds elements, so a resolved element can be resolved once more, in the same session or
later.
-/

namespace Resolvent.Session

open Run

variable {s s' s'' : Session} {catalog : Catalog} {lenient : Bool} {scope : Scope} {id r : Nat}
  {hint hint' : Ty}

lemma whole_new (h : catalog.Whole) (lenient : Bool) : (new catalog lenient).Whole where
  store _ := trivial
  subst := .empty
  catalog := h

lemma whole_read {source : String} (h : s.Whole)
    (hstore : ((Request.read source).serve.exec s).2.store.Whole) :
    ((Request.read source).serve.exec s).2.Whole := by
  have hsame : Ends (read source) s fun _ s' => s'.subst = s.subst ∧ s'.catalog = s.catalog := by
    unfold read
    cases Form.read source with
    | error e => exact ⟨rfl, rfl⟩
    | ok forms => exact ⟨rfl, rfl⟩
  exact ⟨hstore, hsame.1 ▸ h.subst, hsame.2 ▸ h.catalog⟩

/-- What resolving gives in a whole session is given again in any later session, unless the second
pass fails. It fails with type errors only, if no function literal in the element computes the types
of its parameters. -/
theorem resolve_again (hs : (new catalog lenient).Reaches s) (hwhole : s.Whole)
    (hscope : scope.Whole) (hhint : hint.Whole)
    (hid : id < s.store.size) (hr : (resolve scope id hint).exec s = (.ok r, s'))
    (hs' : s'.Reaches s'') : (∀ r', ((resolve scope r hint').exec s'').1 = .ok r' → r' = r) ∧
    (s'.store.ParamsWritten r → ∀ e, ((resolve scope r hint').exec s'').1 = .error e →
    e.isTyping) := by
  obtain ⟨-, horderly, -⟩ := hs.kept (orderly_new catalog lenient)
  obtain ⟨hg, hlt⟩ : s.Grown s' ∧ r < s'.store.size :=
    ((keeps_resolve horderly hid).at_exec hr).imp_right Store.Complete.lt_size
  obtain ⟨-, hfirm⟩ := (firm_resolve horderly hid).at_exec hr
  have hs : (Regime.complete s.catalog True).Admits s :=
    Regime.admits_complete horderly fun _ => hwhole
  have hwhole' : s'.Whole :=
    ((upholds_resolve hs hid (fun _ => hscope) fun _ => hhint).of_ok (i := ()) hr).1.admits.whole
      trivial
  obtain ⟨hkept, horderly', hcatalog⟩ := hs'.kept hg.orderly
  -- All that the second pass has to know about the first.
  have hresumes : Resumes scope s.catalog s'.store r s'' scope (stepBudget s'') := {
    kept := hkept
    orderly := horderly'
    catalog := hcatalog.trans hg.catalog
    like := .refl scope
    whole := fun x hx t hc => by
      have hx' := hwhole'.store x
      rw [← hkept.content_eq (hx.trans_lt hlt), hc] at hx'
      simpa [Content.Whole, Val.isWhole] using hx'
    bound := by
      have := hlt.trans_le hkept.size_le
      unfold stepBudget
      omega }
  have hyields := Firm.yields_resolve hfirm hint' hresumes
  exact ⟨fun r' hr' => hyields.ok hr', fun hwritten e he =>
    hyields.error he (hwritten.kept hg.orderly hlt hkept)⟩

lemma match_sample_again : sample.store.Whole ∧ sampleScope.Whole ∧
    (match (resolve sampleScope 16 .void).exec sample with
      | (.ok r, s') => s'.store.elements.toList.all (fun e => s'.store.writesParams e.content) &&
        ((resolve sampleScope r .void).exec s').1.toOption == some r
      | _ => false) = true := by
  decide +kernel

lemma whole_sample : sample.Whole := by
  have hstore := match_sample_again.1
  exact whole_read (whole_new Catalog.whole_builtins true) hstore

lemma forall_writesParams {st : Store} (h : ∀ e ∈ st.elements.toList, st.writesParams e.content)
    (x : Nat) : st.writesParams (st.content x) :=
  (Store.forall_content_iff (Q := fun c => st.writesParams c) rfl).2 h x

def failsTyping {α : Type} : Except Failure α → Bool
  | .ok _ => false
  | .error e => e.isTyping

lemma typing_of_failsTyping {α : Type} {outcome : Except Failure α} (h : failsTyping outcome) :
    ∃ e, outcome = .error e ∧ e.isTyping := by
  cases outcome with
  | ok a => cases h
  | error e => exact ⟨e, rfl, h⟩

/-- The sample with its function literal comes back. -/
theorem resolve_again_sample : ∃ r s', (resolve sampleScope 16 .void).exec sample = (.ok r, s') ∧
    s'.store.text r = "(if (ok x) (fn +a int (add a y)) z)" ∧ s'.store.ParamsWritten r ∧
    ((resolve sampleScope r .void).exec s').1 = .ok r := by
  obtain ⟨s', hr, htext⟩ := resolve_sample
  obtain ⟨-, hscope, hmatch⟩ := match_sample_again
  rw [hr, Bool.and_eq_true, List.all_eq_true, beq_iff_eq] at hmatch
  obtain ⟨hwrites, hsecond⟩ := hmatch
  have hid : 16 < sample.store.size := by simp [size_sample.1]
  have hresolve := congrArg Prod.fst (eq_ok_of_toOption hsecond)
  have hagain := (resolve_again reaches_sample whole_sample hscope (by decide) hid hr .refl).1 41
    hresolve
  exact ⟨41, s', hr, htext, fun x _ => forall_writesParams hwrites x, hagain ▸ hresolve⟩

/-- A list with seven lists one inside the other, to be added to an empty list. -/
def nested : Session := ((read "(append [] [[[[[[[1]]]]]]])").exec (new .builtins false)).2

/-- The element of the result is one of the candidates that the first pass has left, and too deep
for another list around it. -/
theorem resolve_twice_fails : ∃ r s' e, (resolve [.catalog .builtins] 3 .void).exec nested =
    (.ok r, s') ∧ ((resolve [.catalog .builtins] r .void).exec s').1 = .error e ∧ e.isTyping := by
  have hfirst := eq_ok_of_toOption
    (show ((resolve [.catalog .builtins] 3 .void).exec nested).1.toOption =
    some 6 by decide +kernel)
  have hsecond := typing_of_failsTyping
    (show failsTyping ((resolve [.catalog .builtins] 6 .void).exec
    ((resolve [.catalog .builtins] 3 .void).exec nested).2).1 by decide +kernel)
  exact ⟨6, _, hsecond.choose, hfirst, hsecond.choose_spec⟩

end Resolvent.Session
