import Resolvent.Proofs.Residual.Resolve

/-!
# Running gives the value

An expression that can be resolved becomes a scalar or gets stuck.
-/

namespace Resolvent

open List

namespace Run

variable {α β : Type} {s : Session} {k : α → Run β} {m : Run α}

def Fails (m : Run α) (s : Session) : Prop := Ends m s fun r _ => ∃ f, r = .error f

lemma Fails.bind (h : Fails m s) : Fails (m >>= k) s :=
  Ends.bind h (fun _ _ ⟨_, hf⟩ => nomatch hf) fun f _ _ => ⟨f, rfl⟩

def Gives (m : Run α) (s : Session) (a : α) : Prop := Ends m s fun r s' => r = .ok a ∧ s' = s

lemma Gives.bind {a : α} {P : Except Failure β → Session → Prop} (h : Gives m s a)
    (hk : Ends (k a) s P) : Ends (m >>= k) s P := by
  refine Ends.bind h ?_ fun _ _ ⟨hf, _⟩ => nomatch hf
  rintro b s' ⟨hb, rfl⟩
  cases hb
  exact hk

end Run

namespace Residual

open Residual.Expr Run

variable {ρ : String → Option Val} {env : Scope} {s s' s₁ : Session} {st : Store} {id : Nat}
  {ids : List Nat} {hint : Ty}
  {e a : Expr} {args rest : List Expr} {steps : Steps} {v : Val} {vs : List Val} {fuel : Nat}

abbrev stepsN (fuel : Nat) : Steps :=
  ⟨Session.resolveN fuel, Session.evalN fuel, Session.evalCallN fuel⟩

/-! ## Evaluating scalars and stuck expressions -/

lemma Shows.gives (h : Shows s.store id (.lit v)) (fuel : Nat) :
    Gives (Session.evalN (fuel + 1) env id hint) s v := by
  rw [Session.evalN]
  refine .attempt_bind (.mono (Q := fun r s' => r = .ok v ∧ s' = s) ?_ ?_)
  · unfold Session.evalContent
    refine .get_bind ?_
    obtain ⟨hv, hc | ⟨n, hc⟩⟩ := h
    · rw [hc]
      cases v with
      | null | bool | int | str => exact ⟨rfl, rfl⟩
      | _ => cases hv
    · rw [hc]
      exact ⟨rfl, rfl⟩
  · rintro r s' ⟨rfl, rfl⟩
    exact ⟨rfl, rfl⟩

lemma ShowsAll.evalAll (h : ShowsAll s.store ids (vs.map .lit)) :
    Ends (evalAll (stepsN fuel) env ids) s fun r s' => (∃ f, r = .error f) ∨ r = .ok vs ∧
    s' = s := by
  induction vs generalizing ids with
  | nil =>
    cases ids with
    | nil => exact .inr ⟨rfl, rfl⟩
    | cons => exact h.elim
  | cons v vs ih =>
    cases ids with
    | nil => exact h.elim
    | cons i ids =>
      cases fuel with
      | zero => exact .inl ⟨_, rfl⟩
      | succ fuel =>
        unfold Run.evalAll
        refine (h.1.gives fuel).bind (.bind (ih h.2) ?_ fun f _ _ => .inl ⟨f, rfl⟩)
        rintro ws s' (⟨f, hf⟩ | ⟨hws, rfl⟩)
        · cases hf
        · cases hws
          exact .inr ⟨rfl, rfl⟩

lemma ShowsAll.fails_evalAll (h : ShowsAll s.store ids (vs.map .lit ++ a :: rest))
    (ha : ∀ i, Shows s.store i a → Fails (Session.evalN fuel env i .void) s) :
    Fails (Run.evalAll (stepsN fuel) env ids) s := by
  induction vs generalizing ids with
  | nil =>
    cases ids with
    | nil => exact h.elim
    | cons i ids => exact (ha i h.1).bind
  | cons v vs ih =>
    cases ids with
    | nil => exact h.elim
    | cons i ids =>
      cases fuel with
      | zero => exact ⟨_, rfl⟩
      | succ fuel => exact (h.1.gives fuel).bind (ih h.2).bind

lemma fails_evalN {op : Oper} {k : Nat} (hc : s.store.content id = .call (visited op ids k))
    (h : Fails (Operator.evalBuiltin op.builtin (stepsN fuel) env id (visited op ids k) hint) s) :
    Fails (Session.evalN (fuel + 1) env id hint) s := by
  refine .attempt_bind (.mono (Q := fun r _ => ∃ f, r = .error f) ?_ ?_)
  · unfold Session.evalContent
    refine .get_bind ?_
    rw [hc]
    exact h
  · rintro r s' ⟨f, rfl⟩
    cases f with
    | unresolved el => exact ⟨_, rfl⟩
    | _ => exact ⟨_, rfl⟩

lemma Folder.fails_evalBuiltin {f : Folder} {k : Nat} (hf : f ≠ .truth)
    (h : Ends (evalAll steps env ids) s fun r _ => (∃ g, r = .error g) ∨ ∃ us c, r = .ok us ∧
    f.reduce us = .error c) :
    Fails (Operator.evalBuiltin (Oper.fold f).builtin steps env id (visited (.fold f) ids k) hint)
    s := by
  have hgroups : Ends (evalGroups steps env [ids]) s fun r _ =>
      (∃ g, r = .error g) ∨ ∃ us c, r = .ok [us] ∧ f.reduce us = .error c := by
    refine Ends.bind h ?_ fun g _ _ => .inl ⟨g, rfl⟩
    rintro us s' (⟨g, hg⟩ | ⟨ws, c, hws, hc⟩)
    · cases hg
    · cases hws
      exact .inr ⟨us, c, rfl, hc⟩
  have hvalues : Fails (do
      let vss ← evalGroups steps env [ids]
      Operator.reduced (f.reduce vss.flatten) (s.store.span id)) s := by
    refine Ends.bind hgroups ?_ fun g _ _ => ⟨g, rfl⟩
    rintro vss s' (⟨g, hg⟩ | ⟨us, c, hus, hc⟩)
    · cases hg
    · cases hus
      rw [flatten_singleton, hc]
      exact ⟨_, rfl⟩
  cases f with
  | truth => exact absurd rfl hf
  | sum | concat | equality | order => exact hvalues

lemma Stuck.fails (h : Stuck e) (hshows : Shows s.store id e) (fuel : Nat) :
    Fails (Session.evalN fuel env id hint) s := by
  induction h generalizing id fuel hint with
  | @logic c k a rest _ ih =>
    obtain ⟨ids, hargs, hcalls⟩ := hshows
    cases fuel with
    | zero => exact ⟨_, rfl⟩
    | succ fuel =>
      refine fails_evalN hcalls.2 ?_
      cases ids with
      | nil => exact hargs.elim
      | cons i ids =>
        cases c with
        | true => exact Ends.spanOf_bind (Fails.bind (ih hargs.1 fuel))
        | false => exact Ends.spanOf_bind (Fails.bind (ih hargs.1 fuel))
  | @negation k a _ ih =>
    obtain ⟨ids, hargs, hcalls⟩ := hshows
    cases fuel with
    | zero => exact ⟨_, rfl⟩
    | succ fuel =>
      refine fails_evalN hcalls.2 ?_
      cases ids with
      | nil => exact hargs.elim
      | cons i ids => exact Ends.spanOf_bind (Gives.bind (a := i) ⟨rfl,
          rfl⟩ (Fails.bind (ih hargs.1 fuel)))
  | @conditional k a rest _ ih =>
    obtain ⟨ids, hargs, hcalls⟩ := hshows
    cases fuel with
    | zero => exact ⟨_, rfl⟩
    | succ fuel =>
      refine fails_evalN hcalls.2 ?_
      cases ids with
      | nil => exact hargs.elim
      | cons i ids => exact Ends.spanOf_bind (Gives.bind (a := i) ⟨rfl,
          rfl⟩ (Fails.bind (ih hargs.1 fuel)))
  | @part f k vs a rest _ ih =>
    obtain ⟨ids, hargs, hcalls⟩ := hshows
    cases fuel with
    | zero => exact ⟨_, rfl⟩
    | succ fuel =>
      refine fails_evalN hcalls.2 ?_
      by_cases hf : f = .truth
      · subst hf
        -- There is only one argument, which comes first.
        obtain rfl : vs = [] := by
          have harity : ids.length = 1 := by simpa [Oper.arity, Folder.arity] using hcalls.1
          rw [hargs.length_eq, length_append, length_cons, length_map] at harity
          exact eq_nil_of_length_eq_zero (by omega)
        cases ids with
        | nil => exact hargs.elim
        | cons i ids => exact Ends.spanOf_bind (Gives.bind (a := i) ⟨rfl,
            rfl⟩ (Fails.bind (ih hargs.1 fuel)))
      · exact Folder.fails_evalBuiltin hf ((hargs.fails_evalAll fun i hi => ih hi fuel).mono
          fun r _ hr => .inl hr)
  | @reduce f k vs c hr =>
    obtain ⟨ids, hargs, hcalls⟩ := hshows
    cases fuel with
    | zero => exact ⟨_, rfl⟩
    | succ fuel =>
      refine fails_evalN hcalls.2 (Folder.fails_evalBuiltin ?_ (hargs.evalAll.mono ?_))
      · rintro rfl
        cases hr
      · rintro r s' (hfails | ⟨rfl, _⟩)
        · exact .inl hfails
        · exact .inr ⟨vs, c, rfl, hr⟩

/-! ## Running -/

lemma realize_plain {σ : Subst} {kind : Kind} (h : σ.Sound) (hv : kind.isVar = false)
    (ha : kind.isAlt = false) : (Subst.realize (.plain kind)).exec σ = (.ok (.plain kind), σ) := by
  have hfree : σ.free (.plain kind) = [] := by
    refine eq_nil_iff_forall_not_mem.2 fun i hi => ?_
    obtain ⟨⟨j, hj, _⟩, _⟩ := h.mem_free_iff.1 hi
    rw [Subst.links, Ty.gather_of_not_isVar (t := .plain kind) hv] at hj
    cases hj
  rw [Subst.realize, Subst.realizeWith, Solve.exec_get_bind, h.apply_plain hv, Solve.exec_bind,
    h.exec_choose_plain hv ha]
  simp only
  rw [Solve.exec_get_bind, h.apply_plain hv, hfree]
  rfl

lemma Shows.gives_realize (hs : Fine s) (h : Shows s.store id (.lit v)) :
    Gives (Session.realize id) s v.typeOf := by
  obtain ⟨kind, hkind, hvar, halt⟩ := Hint.exists_plain_typeOf h.1
  have htyp : s.typeOf id = .plain kind := by
    rw [Session.typeOf, h.typeOf_lit, hkind, hs.sound.apply_plain hvar]
  refine Ends.typeOf_bind (Ends.spanOf_bind ?_)
  unfold Ends
  rw [exec_solve, htyp, realize_plain hs.sound hvar halt, hkind]
  exact ⟨rfl, rfl⟩

lemma resolve_outcome (hρ : Scalars ρ)
    (hops : ∀ op : Oper, env.lookup op.name = .ok (some (.ofCallable op.callable)))
    (hs : Fine s) (hgood : Good ρ s [id] [e]) (hd : e.depth ≤ s.store.size)
    (hsym : ∀ n ∈ e.symbols, Agrees env ρ n) :
    Ends (Session.resolve env id .void) s (Outcome env ρ .void s e) := by
  have hbudget : e.depth ≤ Session.stepBudget s := by
    unfold Session.stepBudget
    omega
  exact Ends.get_bind ((handles hρ hops _).resolve s id e .void hs hgood hbudget hsym
    (by simp [Hint.vars]))

lemma run_value (hρ : Scalars ρ)
    (hops : ∀ op : Oper, env.lookup op.name = .ok (some (.ofCallable op.callable)))
    (hs : Fine s) (hgood : Good ρ s [id] [e]) (hd : e.depth ≤ s.store.size)
    (hsym : ∀ n ∈ e.symbols, Agrees env ρ n) : Ends (Session.run env id .void) s fun r _ =>
      (∀ v, r = .ok v → e.value? ρ = some v) ∧
      (Clear env ρ s [e] → ∀ v, e.value? ρ = some v → r = .ok v) := by
  refine .bind (resolve_outcome hρ hops hs hgood hd hsym) ?_ ?_
  · rintro r s₁ ⟨e', hres, hvalue, hsettled, _⟩
    rw [← hvalue]
    rcases hsettled with ⟨w, rfl⟩ | hstuck
    · refine (hres.good.shows.1.gives_realize hres.grows.fine).bind ?_
      refine Ends.get_bind ((hres.good.shows.1.gives _).mono ?_)
      simp [value?]
    · have hfails : Fails (do
          let _ ← Session.realize r
          Session.eval env r .void) s₁ := by
        refine Ends.bind (Q := fun _ s₂ => s₂.store = s₁.store) ?_ (fun _ s₂ hstore => ?_)
          fun f _ _ => ⟨f, rfl⟩
        · refine Ends.typeOf_bind (Ends.spanOf_bind ?_)
          unfold Ends
          rw [exec_solve]
        · exact Ends.get_bind (hstuck.fails (by rw [hstore]; exact hres.good.shows.1) _)
      refine hfails.mono ?_
      rintro _ _ ⟨f, rfl⟩
      simp [hstuck.value?]
  · intro f s₁ ho
    exact ⟨by simp, fun hc v hv => absurd trivial (ho.refused hc v hv)⟩

end Residual

end Resolvent
