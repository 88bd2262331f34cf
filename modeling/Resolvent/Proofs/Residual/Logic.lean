import Resolvent.Proofs.Residual.Reductions

/-!
# Logic keeps the meaning

Conjunctions and disjunctions drop arguments that are known not to decide, and everything after one
that decides.
-/

namespace Resolvent.Residual

open Residual.Expr Run List

variable {ρ : String → Option Val} {env : Scope} {s s' s₁ s₂ : Session} {id k : Nat}
  {ids ids' kept : List Nat} {e e' : Expr}
  {args es es' pre pre' rest : List Expr} {d : Nat} {steps : Steps} {op : Oper} {v : Val}
    {c ok ok' : Bool}

/-! ## Conjunction and disjunction -/

/-- The arguments so far of a conjunction or disjunction have become `es'`. The first of these, if
there is one, is stuck or waits for symbols. -/
structure Junct (env : Scope) (ρ : String → Option Val) (c : Bool) (s : Session) (es : List Expr)
    (s' : Session) (kept : List Nat) (ok : Bool) (es' : List Expr) : Prop where
  residue : Residue ρ (varsAll es) s es s' kept es'
  value : ∀ ys, Oper.junction c (values ρ es' ++ ys) = Oper.junction c (values ρ es ++ ys)
  resolved : ok = true → ∀ a, es'.head? = some a → Stuck a
  lacking : Clear env ρ s es → ∀ a, es'.head? = some a → a.value? ρ = none

lemma Junct.kept_eq_nil_iff (hj : Junct env ρ c s es s' kept ok es') : kept = [] ↔ es' = [] := by
  rw [← length_eq_zero_iff, hj.residue.good.shows.length_eq, length_eq_zero_iff]

lemma values_append (es₁ es₂ : List Expr) :
    values ρ (es₁ ++ es₂) = values ρ es₁ ++ values ρ es₂ := by
  simp [values_eq_map]

lemma Junct.clear (hj : Junct env ρ c s pre s₁ kept ok pre') (hc : Clear env ρ s (pre ++ es))
    (hnodup : (varsAll (pre ++ es)).Nodup) (hle : ∀ j ∈ varsAll (pre ++ es), j ≤ s.subst.size) :
    Clear env ρ s₁ es := by
  rw [varsAll_append] at hnodup hle
  refine hc.of_append.2.grow hj.residue.grows fun j hj => ⟨hle j (by simp [hj]), fun hj' => ?_⟩
  exact (nodup_append'.1 hnodup).2.2 hj' hj

lemma Junct.append (hj : Junct env ρ c s pre s₁ kept ok pre')
    (hres : Residue ρ (varsAll es) s₁ es s₂ ids es')
    (hnodup : (varsAll (pre ++ es)).Nodup) (hle : ∀ j ∈ varsAll (pre ++ es), j ≤ s.subst.size)
    (hvalue : ∀ ys, Oper.junction c (values ρ es' ++ ys) = Oper.junction c (values ρ es ++ ys))
    (hok : ok' = true → ok = true ∧ (pre' = [] → ∀ a, es'.head? = some a → Stuck a))
    (hlack : Clear env ρ s₁ es → pre' = [] → ∀ a, es'.head? = some a → a.value? ρ = none) :
    Junct env ρ c s (pre ++ es) s₂ (kept ++ ids) ok' (pre' ++ es') where
  residue := by
    rw [varsAll_append, nodup_append'] at hnodup
    exact hj.residue.append_simple hres hle hnodup.2.2
  value ys := by
    rw [values_append, values_append, append_assoc, append_assoc,
      Oper.junction_append (hvalue ys), hj.value]
  resolved h a ha := by
    cases pre' with
    | nil => exact (hok h).2 rfl a ha
    | cons b pre' => exact hj.resolved (hok h).1 a (by simpa using ha)
  lacking hc a ha := by
    cases pre' with
    | nil => exact hlack (hj.clear hc hnodup hle) rfl a ha
    | cons b pre' => exact hj.lacking hc.of_append.1 a (by simpa using ha)

/-- What resolving the arguments of a conjunction or disjunction comes to. -/
def OutcomeLogic (env : Scope) (ρ : String → Option Val) (c : Bool) (s : Session) (es : List Expr) :
    Except Failure (List Nat × Bool × Bool) → Session → Prop
  | .ok (_, true, _), s' => Grows (varsAll es) s s' ∧ Oper.junction c (values ρ es) =
      some (.bool !c)
  | .ok (kept, false, ok), s' => ∃ es', Junct env ρ c s es s' kept ok es'
  | .error f, s' => (Clear env ρ s es → Oper.junction c (values ρ es) = none) ∧ Blocked s f s'

lemma Handles.resolveLogicArgs (H : Handles steps env ρ d)
    (hj : Junct env ρ c s pre s₁ kept ok pre')
    (hgood : Good ρ s₁ ids rest) (hnodup : (varsAll (pre ++ rest)).Nodup)
    (hle : ∀ j ∈ varsAll (pre ++ rest), j ≤ s.subst.size) (hd : depths rest ≤ d)
    (hsym : ∀ n ∈ symbolsAll rest, Agrees env ρ n) :
    Ends (Operator.resolveLogicArgs c steps env kept ok ids) s₁
    (OutcomeLogic env ρ c s (pre ++ rest)) := by
  induction ids generalizing s₁ kept ok pre pre' rest with
  | nil =>
    cases rest with
    | nil => exact .pure ⟨pre', by simpa using hj⟩
    | cons e rest => exact absurd hgood.shows (by simp [ShowsAll])
  | cons id ids ih =>
    cases rest with
    | nil => exact absurd hgood.shows (by simp [ShowsAll])
    | cons e rest =>
      obtain ⟨hge, hgrest, hdisj⟩ := hgood.uncons
      have hde : e.depth ≤ d ∧ depths rest ≤ d := by simpa [depths] using hd
      have hassoc : pre ++ e :: rest = (pre ++ [e]) ++ rest := by simp
      have hnodup' : (varsAll (pre ++ [e])).Nodup := by
        rw [hassoc, varsAll_append] at hnodup
        exact (nodup_append'.1 hnodup).1
      have hle' : ∀ j ∈ varsAll (pre ++ [e]), j ≤ s.subst.size := fun j hj => hle j (by
        rw [hassoc, varsAll_append]
        exact mem_append_left _ hj)
      -- Going on with the arguments so far and this one.
      have hgo {s₂ : Session} {kept' : List Nat} {ok' : Bool} {es' : List Expr}
          (hj' : Junct env ρ c s (pre ++ [e]) s₂ kept' ok' es') (hg : Grows (varsAll [e]) s₁ s₂) :
          Ends (Operator.resolveLogicArgs c steps env kept' ok' ids) s₂
          (OutcomeLogic env ρ c s (pre ++ e :: rest)) := by
        rw [hassoc] at hnodup hle ⊢
        exact ih hj' (hgrest.grow hg fun j hj hj' => hdisj hj' hj) hnodup hle hde.2
          fun n hn => hsym n (by simp [symbolsAll, hn])
      unfold Operator.resolveLogicArgs
      refine .bind (H.tried (h := .void) hj.residue.grows.fine hge hde.1 (fun n hn =>
        hsym n (by simp [symbolsAll, hn])) (by simp [Hint.vars])) ?_ ?_
      · rintro ⟨r, resolved⟩ s₂ htried
        obtain ⟨e', hres, hvalue, ⟨rfl, v, rfl⟩ | ⟨hlit, hstuck, hlack⟩⟩ := htried.void_cases
        · refine .ite (fun _ => .val?_bind ?_) (by simp)
          rw [hres.good.shows.1.val?]
          have hv : e.value? ρ = some v := hvalue.symm
          refine .ite (fun hdec => ?_) fun hdec => ?_
          · -- The arguments after this one are left out.
            have hrest : Residue ρ (varsAll rest) s₂ rest s₂ [] [] :=
              ⟨.refl hres.grows.fine, .nil ρ s₂, .nil _ _⟩
            have hall : Residue ρ (varsAll (e :: rest)) s₁ (e :: rest) s₂ [r] [.lit v] :=
              hres.append_simple hrest (fun j hj => (hgood.bounded j hj).2) hdisj
            have hdecided (ys : List (Option Val)) : Oper.junction c (e.value? ρ :: ys) =
              some (.bool !c) := by
              rw [hv, Oper.junction_decided hdec]
            refine .ite (fun hempty => ?_) fun hne => ?_
            · refine .pure ⟨?_, ?_⟩
              · rw [varsAll_append, nodup_append'] at hnodup
                exact (hj.residue.append_simple hall hle hnodup.2.2).grows
              · rw [values_append, ← hj.value, hj.kept_eq_nil_iff.1 (by simpa using hempty)]
                exact hdecided _
            · have hkept : pre' ≠ [] :=
                fun hnil => absurd (hj.kept_eq_nil_iff.2 hnil) (by simpa using hne)
              refine .pure ⟨_, hj.append hall hnodup hle (fun ys => ?_) (fun h =>
                ⟨h, fun hnil => absurd hnil hkept⟩) fun _ hnil => absurd hnil hkept⟩
              simp [values, value?, hdecided, Oper.junction_decided hdec]
          · have hnil : Residue ρ (varsAll [e]) s₁ [e] s₂ [] [] := ⟨hres.grows, .nil ρ s₂, .nil _ _⟩
            have hj' := hj.append hnil hnodup' hle' (fun ys => by simp [values, hv,
              Oper.junction_skip (Bool.eq_false_of_not_eq_true hdec)])
              (fun h => ⟨h, by simp⟩) (by simp)
            simp only [append_nil] at hj'
            exact hgo hj' hres.grows
        · have hj' : Junct env ρ c s (pre ++ [e]) s₂ (kept ++ [r]) (ok &&
            resolved) (pre' ++ [e']) := by
            refine hj.append hres hnodup' hle' (fun ys => by simp [values, hvalue]) (fun h => ?_)
              fun hc _ a ha => ?_
            · rw [Bool.and_eq_true] at h
              exact ⟨h.1, fun _ a ha => Option.some.inj ha ▸ hstuck h.2⟩
            · rw [← Option.some.inj ha, hvalue, hlack hc]
          cases resolved with
          | false => exact .ite (by simp) fun _ => by simpa using hgo hj' hres.grows
          | true =>
            refine .ite (fun _ => .val?_bind ?_) (by simp)
            rw [hres.good.shows.1.val?, hlit]
            simpa using hgo hj' hres.grows
      · rintro f s₂ ⟨hrefused, hblocked⟩
        refine ⟨fun hc => ?_, hblocked.of_grows hj.residue.grows⟩
        -- Either nothing was kept, or the first argument that was kept has no value.
        rw [values_append, ← hj.value]
        cases pre' with
        | nil => simp [values, refused_void.1 hrefused (hj.clear hc hnodup hle).uncons.1,
            Oper.junction]
        | cons a pre' => simp [values, hj.lacking hc.of_append.1 a rfl, Oper.junction]

lemma Handles.resolveLogic (H : Handles steps env ρ d)
    (hv : Visit env ρ d s id (.logic c) k ids args) :
    Ends (Operator.resolveLogic c steps env id (visited (.logic c) ids k)) s
      (Outcome env ρ .void s (.call (.logic c) (some k) args)) := by
  have hvars : (Oper.logic c).vars (some k) = [] := rfl
  have hnil : Junct env ρ c s [] s [] true [] :=
    ⟨⟨.refl hv.fine, .nil ρ s, .refl _ _⟩, fun _ => rfl, by simp, by simp⟩
  refine .spanOf_bind
    (.bind (H.resolveLogicArgs hnil hv.good hv.good.distinct (fun j hj => (hv.good.bounded j hj).2)
    hv.depths_le hv.agrees) ?_ ?_)
  · rintro ⟨kept, decided, ok⟩ s₁ ho
    cases decided with
    | true => exact .ite (fun _ => Outcome.literal (by simpa [hvars] using ho.1) rfl ho.2) (by simp)
    | false =>
      obtain ⟨es', hj⟩ := ho
      have hvalue : Oper.junction c (values ρ es') = Oper.junction c (values ρ args) := by
        simpa using hj.value []
      refine .ite (by simp) fun _ => .ite (fun hempty => ?_) fun hne => ?_
      · obtain rfl : es' = [] := hj.kept_eq_nil_iff.1 (by simpa using hempty)
        exact Outcome.literal (by simpa [hvars] using hj.residue.grows) rfl hvalue.symm
      · obtain ⟨a, es', rfl⟩ :=
          exists_cons_of_ne_nil fun hnil => hne (by simpa using hj.kept_eq_nil_iff.2 hnil)
        refine Outcome.finish (by simpa [hvars] using hj.residue) hv.apart
          (hj.residue.grows.store.content hv.content nofun) rfl hvalue (by simp [hvars])
          (fun h => ⟨.logic (hj.resolved h a rfl), by simp [hvars]⟩) fun _ hc =>
            hvalue.symm.trans ?_
        simp [values, hj.lacking hc a rfl, Oper.junction]
  · rintro f s₁ ⟨hnone, hblocked⟩
    exact .of_blocked hblocked fun hc => hnone hc.args

/-! ## Negation -/

lemma Oper.eq_negation_of_name (h : op.callable.name = Builtin.not.name) : op = .negation := by
  cases op with
  | logic c => cases c <;> exact absurd h (by decide)
  | negation => rfl
  | conditional => exact absurd h (by decide)
  | fold f => cases f <;> exact absurd h (by decide)

lemma Good.negated {inner : Nat} (hgood : Good ρ s [id] [e])
    (hn : Operator.negated? s.store id = some inner) :
    ∃ mark x, e = .call .negation mark [x] ∧ Good ρ s [inner] [x] := by
  have hshows := hgood.shows.1
  -- Expressions other than calls are not negated.
  have hcall {ids : List Nat} {sig : Option Ty} {op : Oper} {mark : Option Nat} {args : List Expr}
      (hc : s.store.content id = .call ⟨op.callable, op.groups ids, sig⟩)
      (harity : op.arity ids.length)
      (hargs : Good ρ s ids args) : ∃ mark' x, call op mark args = .call .negation mark' [x] ∧
      Good ρ s [inner] [x] := by
    simp only [Operator.negated?, hc] at hn
    split at hn
    · next hname =>
      obtain rfl := Oper.eq_negation_of_name hname
      obtain ⟨i, rfl⟩ := length_eq_one_iff.1 (by simpa [Oper.arity] using harity)
      obtain rfl : i = inner := by simpa [Call.arg?, Call.group, Oper.groups] using hn
      obtain ⟨x, rfl⟩ := length_eq_one_iff.1 hargs.shows.length_eq.symm
      exact ⟨mark, x, rfl, hargs⟩
    · cases hn
  cases e with
  | lit v =>
    rcases hshows.2 with hc | ⟨n, hc⟩
    · simp [Operator.negated?, hc] at hn
    · simp [Operator.negated?, hc] at hn
  | sym n => simp [Operator.negated?, show s.store.content id = .name n none from hshows] at hn
  | call op mark args =>
    obtain ⟨ids, hcalls, hargs, _⟩ := good_call_iff.1 hgood
    cases mark with
    | some k => exact hcall hcalls.2 hcalls.1 hargs
    | none =>
      rcases hcalls with ⟨harity, hc⟩ | ⟨h, hc, _⟩
      · exact hcall hc harity hargs
      · simp [Operator.negated?, hc] at hn

lemma Handles.negation {a r : Nat} {x : Expr} {span : Span} (H : Handles steps env ρ d)
    (hv : Visit env ρ d s id .negation k [a] [x]) (hres : Residue ρ (varsAll [x]) s [x] s₁ [r] [e'])
    (hvalue : e'.value? ρ = x.value? ρ) (hok : ok = true → Stuck e')
    (hlack : Clear env ρ s [x] → x.value? ρ = none) :
    Ends (match Operator.negated? s₁.store r, s₁.catalog.callable? Builtin.ok.name with
      | some inner, some truth => do
        let el ← alloc (.call ⟨truth, [[inner]], none⟩) span
        if ok then steps.resolve env el .void else throw (.unresolved el)
      | _, _ => finish id (visited .negation [a] k) [[r]] ok) s₁
      (Outcome env ρ .void s (.call .negation (some k) [x])) := by
  have hvars : Oper.negation.vars (some k) = [] := rfl
  have hneg : value? ρ (.call .negation (some k) [e']) =
    value? ρ (.call .negation (some k) [x]) := by
    simp [value?, values, hvalue]
  have hnone (hx : x.value? ρ = none) : value? ρ (.call .negation (some k) [x]) = none := by
    simp [value?, values, hx, Oper.apply]
  rw [hres.grows.fine.catalog, show Builtin.ok.name = (Oper.fold .truth).name from rfl,
    Oper.callable?_name]
  cases hn : Operator.negated? s₁.store r with
  | none =>
    exact Outcome.finish (by simpa [hvars] using hres) hv.apart
      (hres.grows.store.content hv.content (by simp)) rfl hneg
      (by simp [hvars]) (fun h => ⟨.negation (hok h), by simp [hvars]⟩) fun _ hc => hnone (hlack hc)
  | some inner =>
    obtain ⟨mark, y, rfl, hgy⟩ := hres.good.negated hn
    refine .alloc_bind ?_
    generalize hs₂ : { s₁
      with store := (s₁.store.alloc (.call ⟨(Oper.fold .truth).callable, [[inner]], none⟩) span).2
      } = s₂
    have hg : Grows [] s₁ s₂ := by
      rw [← hs₂]
      exact .alloc hres.grows.fine _ _
    have hgood : Good ρ s₂ [s₁.store.size] [.call (.fold .truth) none [y]] := by
      refine good_call_iff.2 ⟨[inner], .inl ⟨rfl, ?_⟩, hgy.grow hg (by simp), by simp [Oper.vars]⟩
      rw [← hs₂]
      exact Store.content_alloc_size _ _ _
    have htruth : value? ρ (.call (.fold .truth) none [y]) =
      value? ρ (.call .negation (some k) [x]) := by
      rw [← hneg]
      exact Oper.truth_eq_negation_negation _
    have hpart : Part s.subst.size [.call .negation (some k) [x]]
      [.call (.fold .truth) none [y]] := by
      obtain ⟨hdepths, hsymbols, hconditionals, hvars⟩ := hres.part
      simp only [depths, depth] at hdepths hsymbols hvars
      refine ⟨by simp only [depths, depth]; omega, by simpa using hsymbols, by
        simpa using hconditionals, by simpa [Oper.vars, Oper.isGeneric] using hvars⟩
    have hres₂ : Residue ρ (varsAll [.call .negation (some k) [x]]) s [.call .negation (some k) [x]]
      s₂ [s₁.store.size] [.call (.fold .truth) none [y]] :=
      ⟨(hres.grows.mono (by simp)).trans hg (by simp), hgood, hpart⟩
    refine .ite (fun htrue => ?_) fun _ => .throw ⟨hres₂.grows.lenient, refused_void.2 fun hc => ?_,
      fun _ => ⟨_, hres₂, htruth, (by simp)⟩⟩
    · have hdepth : depth (.call (.fold .truth) none [y]) ≤ d := by
        have h₁ := hres.part.depths_le
        have h₂ := hv.depths_le
        simp only [depths, depth] at h₁ h₂ ⊢
        omega
      have hagrees : ∀ n ∈ symbols (.call (.fold .truth) none [y]), Agrees env ρ n := fun n hn =>
        hv.agrees n (by simpa using hpart.symbols (by simpa [symbolsAll] using hn))
      exact (H.resolve s₂ _ _ .void hg.fine hgood hdepth hagrees (by simp [Hint.vars])).mono
        fun r s' ho => ho.of_residue hres₂ htruth fun hne =>
          absurd (hnone (hvalue ▸ (hok htrue).value?)) hne
    · exact hnone (hlack hc.args)

lemma Handles.resolveNot (H : Handles steps env ρ d)
    (hv : Visit env ρ d s id .negation k ids args) :
    Ends (Operator.resolveNot steps env id (visited .negation ids k)) s
      (Outcome env ρ .void s (.call .negation (some k) args)) := by
  obtain ⟨a, rfl⟩ : ∃ a, ids = [a] := length_eq_one_iff.1 (by simpa [Oper.arity] using hv.arity)
  obtain ⟨x, rfl⟩ : ∃ x, args = [x] := length_eq_one_iff.1 hv.good.shows.length_eq.symm
  have hdx : x.depth ≤ d := by simpa [depths] using hv.depths_le
  refine .spanOf_bind (.bind (Q := fun r s' => r = .ok a ∧ s = s') (.pure ⟨rfl, rfl⟩) ?_ (by simp))
  rintro _ _ ⟨h, rfl⟩
  cases h
  refine .bind (H.tried (h := .void) hv.fine hv.good hdx (fun n hn =>
    hv.agrees n (by simpa [symbolsAll] using hn)) (by simp [Hint.vars])) ?_ ?_
  · rintro ⟨r, ok⟩ s₁ htried
    refine .get_bind ?_
    obtain ⟨e', hres, hvalue, ⟨rfl, v, rfl⟩ | ⟨hlit, hok, hlack⟩⟩ := htried.void_cases
    · rw [hres.good.shows.1.val?]
      refine Outcome.literal (hres.grows.mono (by simp)) rfl ?_
      simp [value?, values, ← hvalue, Oper.apply]
    · rw [hres.good.shows.1.val?, hlit]
      exact H.negation hv hres hvalue hok hlack
  · rintro f s₁ ⟨hrefused, hblocked⟩
    refine .of_blocked hblocked fun hc => ?_
    simp [value?, values, Oper.apply, refused_void.1 hrefused hc.args]

end Resolvent.Residual
