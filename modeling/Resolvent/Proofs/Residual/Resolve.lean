import Resolvent.Proofs.Residual.Conditional
import Resolvent.Proofs.Session.Arguments
import Mathlib.Data.List.TakeWhile

/-!
# Resolving keeps the meaning

An expression becomes a call of its operator once the head has been looked up and the arguments are
laid out, and a call gets a signature with a type variable of its own on the first visit; both are
residues of the expression.
-/

namespace Resolvent

open List

namespace Layout

variable {st : Store} {ids : List Nat}

lemma takeRun_ordinary (h : ∀ i ∈ ids, classOf st i = .ordinary) :
    takeRun st .ordinary ids = (ids, []) := by
  rw [takeRun, span_eq_takeWhile_dropWhile]
  have htake : ids.takeWhile (fun i => classOf st i == .ordinary) = ids :=
    takeWhile_eq_self_iff.2 fun i hi => by simp [h i hi]
  have hdrop : ids.dropWhile (fun i => classOf st i == .ordinary) = [] :=
    dropWhile_eq_nil_iff.2 fun i hi => by simp [h i hi]
  rw [htake, hdrop]

lemma arrange_plain {name : String} {t : Ty} (hrole : Role.of name = .plain)
    (h : ∀ i ∈ ids, classOf st i = .ordinary) :
    StateT.run (ExceptT.run (arrange [(name, t)] ids)) st =
      (if ids.isEmpty && !Param.isOpt name then .error (.missingArg (Param.key name))
      else .ok [ids], st) := by
  have htake : StateT.run (ExceptT.run (take name ids)) st = (.ok (ids, []), st) := by
    unfold take
    rw [hrole]
    exact congrArg (fun r => (Except.ok r, st)) (takeRun_ordinary h)
  unfold arrange
  rw [ExceptT.run_bind, StateT.run_bind, htake]
  change StateT.run (ExceptT.run (if (ids.isEmpty && !Param.isOpt name) = true then _ else _)) st =
    _
  split
  · rfl
  · rfl

section

variable {name : String} {t : Ty} {ps : List Param} {r : Except Failure (List (List Nat))}
  (hrole : Role.of name = .single)

include hrole

lemma arrange_one {i : Nat} (hi : classOf st i = .ordinary)
    (h : StateT.run (ExceptT.run (arrange ps ids)) st = (r, st)) :
    StateT.run (ExceptT.run (arrange ((name, t) :: ps) (i :: ids))) st =
    (r.map ([i] :: ·), st) := by
  have htake : StateT.run (ExceptT.run (take name (i :: ids))) st = (.ok ([i], ids), st) := by
    unfold take
    rw [hrole]
    change StateT.run (ExceptT.run (if classOf st i = .ordinary then _ else _)) st = _
    rw [if_pos hi]
    rfl
  rw [arrange, ExceptT.run_bind, StateT.run_bind, htake]
  change StateT.run (ExceptT.run (do let groups ← arrange ps ids; return [i] :: groups)) st = _
  rw [ExceptT.run_bind, StateT.run_bind, h]
  cases r <;> rfl

lemma arrange_none (hopt : Param.isOpt name = true)
    (h : StateT.run (ExceptT.run (arrange ps [])) st = (r, st)) :
    StateT.run (ExceptT.run (arrange ((name, t) :: ps) [])) st = (r.map ([] :: ·), st) := by
  have htake : StateT.run (ExceptT.run (take name [])) st = (.ok ([], []), st) := by
    unfold take
    rw [hrole]
    rfl
  rw [arrange, ExceptT.run_bind, StateT.run_bind, htake]
  rw [hopt]
  change StateT.run (ExceptT.run (do let groups ← arrange ps []; return [] :: groups)) st = _
  rw [ExceptT.run_bind, StateT.run_bind, h]
  cases r <;> rfl

lemma arrange_missing (hopt : Param.isOpt name = false) :
    StateT.run (ExceptT.run (arrange ((name, t) :: ps) [])) st =
    (.error (.missingArg (Param.key name)), st) := by
  have htake : StateT.run (ExceptT.run (take name [])) st = (.ok ([], []), st) := by
    unfold take
    rw [hrole]
    rfl
  rw [arrange, ExceptT.run_bind, StateT.run_bind, htake]
  rw [hopt]
  rfl

end

end Layout

namespace Residual

open Residual.Expr Run

variable {ρ : String → Option Val} {env : Scope} {s s' s₁ s₂ : Session} {st : Store} {id k : Nat}
  {ids : List Nat}
  {e e' : Expr} {args : List Expr} {d : Nat} {steps : Steps} {op : Oper} {h : Hint} {v : Val}

/-! ## Calls -/

lemma Oper.arrange_conditional (hids : ∀ i ∈ ids, Layout.classOf st i = .ordinary) :
    ∃ r, StateT.run (ExceptT.run (Layout.arrange conditional.callable.params ids)) st = (r, st) ∧
      if conditional.arity ids.length then r = .ok (conditional.groups ids)
      else ∃ f, r = .error f ∧ ∀ el, f ≠ .unresolved el := by
  have hcond : Layout.Role.of "cond" = .single ∧ Param.isOpt "cond" = false := by decide
  have hthen : Layout.Role.of "then" = .single ∧ Param.isOpt "then" = false := by decide
  have helse : Layout.Role.of "else?" = .single ∧ Param.isOpt "else?" = true := by decide
  rcases ids with _ | ⟨i, _ | ⟨j, ids⟩⟩
  · exact ⟨_, Layout.arrange_missing hcond.1 hcond.2, _, rfl, by simp⟩
  · exact ⟨_, Layout.arrange_one hcond.1 (hids i (by simp))
      (Layout.arrange_missing hthen.1 hthen.2), _, rfl, by simp⟩
  have htwo {r : Except Failure (List (List Nat))}
      (h : StateT.run (ExceptT.run (Layout.arrange [("else?", Builtin.generic)] ids)) st =
      (r, st)) :=
    Layout.arrange_one (t := .any) hcond.1 (hids i (by simp))
      (Layout.arrange_one (t := Builtin.generic) hthen.1 (hids j (by simp)) h)
  rcases ids with _ | ⟨l, _ | ⟨m, ids⟩⟩
  · exact ⟨_, htwo (Layout.arrange_none helse.1 helse.2 rfl), rfl⟩
  · exact ⟨_, htwo (Layout.arrange_one helse.1 (hids l (by simp)) rfl), rfl⟩
  · exact ⟨_, htwo (Layout.arrange_one helse.1 (hids l (by simp)) rfl), _, rfl,
      (Layout.final_unexpected st m).2⟩

lemma Oper.arrange (op : Oper) (hids : ∀ i ∈ ids, Layout.classOf st i = .ordinary) :
    ∃ r, StateT.run (ExceptT.run (Layout.arrange op.callable.params ids)) st = (r, st) ∧
      if op.arity ids.length then r = .ok (op.groups ids) else ∃ f, r = .error f ∧
        ∀ el, f ≠ .unresolved el := by
  have hoptional : Layout.Role.of "plain?" = .plain ∧ Param.isOpt "plain?" = true := by decide
  have hplain : Layout.Role.of "plain" = .plain ∧ Param.isOpt "plain" = false := by decide
  have hsingle : Layout.Role.of "a" = .single ∧ Param.isOpt "a" = false := by decide
  have hone : ∃ r, StateT.run (ExceptT.run (Layout.arrange [("a", .any)] ids)) st = (r, st) ∧
      if ids.length == 1 then r = .ok [ids] else ∃ f, r = .error f ∧ ∀ el, f ≠ .unresolved el := by
    rcases ids with _ | ⟨i, _ | ⟨j, ids⟩⟩
    · exact ⟨_, Layout.arrange_missing hsingle.1 hsingle.2, _, rfl, by simp⟩
    · exact ⟨_, Layout.arrange_one hsingle.1 (hids i (by simp)) rfl, rfl⟩
    · exact ⟨_, Layout.arrange_one hsingle.1 (hids i (by simp)) rfl, _, rfl,
        (Layout.final_unexpected st j).2⟩
  have hmany (t : Ty) : ∃ r, StateT.run (ExceptT.run (Layout.arrange [("plain", t)] ids)) st =
    (r, st) ∧
      if ids.length != 0 then r = .ok [ids] else ∃ f, r = .error f ∧ ∀ el, f ≠ .unresolved el := by
    refine ⟨_, Layout.arrange_plain hplain.1 hids, ?_⟩
    cases ids with
    | nil => exact ⟨_, rfl, by simp⟩
    | cons i ids => rfl
  cases op with
  | logic c =>
    refine ⟨.ok [ids], ?_, by simp [arity, groups]⟩
    have := Layout.arrange_plain (t := .plain .list) hoptional.1 hids
    simp only [hoptional.2, Bool.not_true, Bool.and_false] at this
    cases c with
    | true => exact this
    | false => exact this
  | negation => exact hone
  | conditional => exact arrange_conditional hids
  | fold f =>
    cases f with
    | truth => exact hone
    | sum | concat | equality | order => exact hmany _

lemma Shows.classOf (h : Shows st id e) : Layout.classOf st id = .ordinary := by
  unfold Layout.classOf
  cases e with
  | lit v =>
    rcases h.2 with hc | ⟨n, hc⟩
    · rw [hc]; rfl
    · rw [hc]; rfl
  | sym n =>
    rw [show st.content id = .name n none from h]
    rfl
  | call op mark args =>
    obtain ⟨ids, _, hc⟩ := h
    cases mark with
    | some k => rw [hc.2]; rfl
    | none =>
      rcases hc with ⟨_, hc⟩ | ⟨h, hc, _⟩
      · rw [hc]; rfl
      · rw [hc]; rfl

lemma ShowsAll.classOf (h : ShowsAll st ids args) : ∀ i ∈ ids, Layout.classOf st i = .ordinary := by
  rw [showsAll_iff] at h
  induction h with
  | nil => simp
  | cons hi _ ih => simpa using ⟨hi.classOf, ih⟩

def afterVisit (s : Session) (id : Nat) (op : Oper) (ids : List Nat) : Session :=
  { s with
    subst := if op.isGeneric then { s.subst with size := s.subst.size + 1 } else s.subst
    store := (s.store.alloc (.call (visited op ids (s.subst.size + 1))) (s.store.span id)).2 }

lemma exec_instantiate (s : Session) (id : Nat) (op : Oper) (ids : List Nat) :
    (Session.instantiate id ⟨op.callable, op.groups ids, none⟩).exec s =
      (.ok (s.store.size, visited op ids (s.subst.size + 1)), afterVisit s id op ids) := by
  rw [Session.instantiate, exec_get_bind, op.instantiateGeneric_eq]
  rfl

lemma Oper.mem_vars {j k : Nat} : j ∈ op.vars (some k) ↔ op.isGeneric ∧ j = k := by
  unfold vars
  split
  · next hg => simp [hg]
  · next hg => simp [hg]

lemma Grows.afterVisit (hs : Fine s) (id : Nat) (op : Oper) (ids : List Nat) :
    Grows [] s (afterVisit s id op ids) := by
  unfold Residual.afterVisit
  cases op.isGeneric with
  | true =>
    exact ⟨⟨hs.catalog, hs.sound.grow (Nat.le_succ _), hs.closed⟩, .alloc _ _ _, rfl, Nat.le_succ _,
      fun _ hi => hi, fun _ _ _ => rfl⟩
  | false => exact .alloc hs _ _

lemma get?_afterVisit (s : Session) (id : Nat) (op : Oper) (ids : List Nat) (j : Nat) :
    (afterVisit s id op ids).subst.get? j = s.subst.get? j := by
  unfold afterVisit
  cases op.isGeneric <;> rfl

lemma Handles.resolveCall_new (H : Handles steps env ρ d) (hρ : Scalars ρ) (hs : Fine s)
    (hargs : Good ρ s ids args) (harity : op.arity ids.length) (hd : depths args ≤ d)
    (hsym : ∀ n ∈ symbolsAll args, Agrees env ρ n) :
    Ends (Session.resolveCall steps env id ⟨op.callable, op.groups ids, none⟩) s
    (Outcome env ρ .void s (.call op none args)) := by
  have hg := Grows.afterVisit hs id op ids
  have hargs' : Good ρ (afterVisit s id op ids) ids args := hargs.grow hg (by simp)
  have hcontent : (afterVisit s id op ids).store.content s.store.size =
    .call (visited op ids (s.subst.size + 1)) := Store.content_alloc_size _ _ _
  have hnew : (afterVisit s id op ids).subst.get? (s.subst.size + 1) = none := by
    rw [get?_afterVisit]
    cases hget : s.subst.get? (s.subst.size + 1) with
    | none => rfl
    | some b => exact absurd (hs.sound.numbered (s.subst.size + 1) (by simp [hget])).2 (by omega)
  have hapart : ∀ j ∈ op.vars (some (s.subst.size + 1)),
      Apart ρ (afterVisit s id op ids) op (some (s.subst.size + 1)) args j := by
    intro j hj
    obtain ⟨hgeneric, rfl⟩ := Oper.mem_vars.1 hj
    refine ⟨Nat.succ_pos _, by simp [afterVisit, hgeneric], fun hmem => ?_, fun _ _ => .inl hnew⟩
    exact absurd (hargs.bounded _ hmem).2 (by omega)
  have hres : Residue ρ (varsAll [.call op none args]) s [.call op none args]
    (afterVisit s id op ids) [s.store.size] [.call op (some (s.subst.size + 1)) args] := by
    refine ⟨hg.mono (by simp), good_call_iff.2 ⟨ids, ⟨harity, hcontent⟩, hargs', hapart⟩,
      le_rfl, by simp, by simp, fun j hj => ?_⟩
    simp only [varsAll_call, mem_append] at hj ⊢
    rcases hj with hj | hj
    · exact .inr (by simp [(Oper.mem_vars.1 hj).2])
    · exact .inl (.inr hj)
  refine .bind (Q := fun r s' => r = .ok (s.store.size, visited op ids (s.subst.size + 1)) ∧
    afterVisit s id op ids = s') (.of_exec (exec_instantiate s id op ids) ⟨rfl, rfl⟩) ?_ (by simp)
  rintro _ _ ⟨hr, rfl⟩
  cases hr
  refine (H.operator hρ ⟨hg.fine, hargs', hapart, hcontent, harity, hd, hsym⟩).mono fun r s' ho =>
    ho.of_residue hres rfl fun _ hu => undecided_call.2 ⟨fun j hj _ => ?_, ?_⟩
  · rw [(Oper.mem_vars.1 hj).2, hnew]
  · exact (undecided_call.1 hu).2.grow hg fun j hj => ⟨(hargs.bounded j hj).2, by simp⟩

lemma Handles.resolveCall_visited (H : Handles steps env ρ d) (hρ : Scalars ρ) (hs : Fine s)
    (hgood : Good ρ s [id] [.call op (some k) args]) (hd : depths args ≤ d)
    (hsym : ∀ n ∈ symbolsAll args, Agrees env ρ n)
    (hcontent : s.store.content id = .call (visited op ids k)) :
    Ends (Session.resolveCall steps env id (visited op ids k)) s
    (Outcome env ρ .void s (.call op (some k) args)) := by
  obtain ⟨ids', hcalls, hargs, hapart⟩ := good_call_iff.1 hgood
  obtain rfl : ids' = ids := by
    have hgroups : op.groups ids' = op.groups ids := by
      simpa [visited] using hcalls.2.symm.trans hcontent
    simpa [Oper.flatten_groups] using congrArg flatten hgroups
  exact H.operator hρ ⟨hs, hargs, hapart, hcontent, hcalls.1, hd, hsym⟩

lemma exec_arrange {params : List Param} {r : Except Failure (List (List Nat))}
    (h : StateT.run (ExceptT.run (Layout.arrange params ids)) s.store = (r, s.store)) :
    (arrange params ids).exec s = (r, s) := by
  rw [arrange, exec_get_bind, h]
  cases r <;> rfl

lemma Handles.resolveExpr {head : Nat} (H : Handles steps env ρ d) (hρ : Scalars ρ) (hs : Fine s)
    (hargs : Good ρ s ids args) (hpos : 0 < d) (hd : depths args ≤ d)
    (hsym : ∀ n ∈ symbolsAll args, Agrees env ρ n)
    (hhead : s.store.content head = .name op.name none) :
    Ends (Session.resolveExpr steps env id (head :: ids)) s
    (Outcome env ρ .void s (.call op none args)) := by
  generalize hs₁ : { s with store := (s.store.alloc (.name op.name (some (.ofCallable op.callable)))
    (s.store.span head)).2 } = s₁
  have hg : Grows [] s s₁ := hs₁ ▸ .alloc hs _ _
  have htry : Ends (resolveOrResidual steps env head .void) s fun r s' =>
    r = .ok (s.store.size, true) ∧ s₁ = s' := by
    refine .attempt_bind ((H.head s head op hhead hpos).mono ?_)
    rintro r s' ⟨rfl, rfl⟩
    exact .pure ⟨rfl, hs₁.symm⟩
  have hcallable : s₁.store.callable? s.store.size = some op.callable := by
    simp [← hs₁, Store.callable?, Definition.ofCallable]
  have hargs₁ := hargs.grow hg (by simp)
  obtain ⟨r, harrange, hr⟩ := op.arrange hargs₁.shows.classOf
  refine .spanOf_bind (.bind htry ?_ (by simp))
  rintro _ _ ⟨hfirst, rfl⟩
  cases hfirst
  refine .ite (fun _ => .get_bind ?_) (by simp)
  rw [hcallable]
  refine .bind (Q := fun r s' => r = .ok (op.callable, ids) ∧
    s₁ = s') (.pure ⟨rfl, rfl⟩) ?_ (by simp)
  rintro _ _ ⟨hc, rfl⟩
  cases hc
  refine .bind (Q := fun r' s' => r = r' ∧
    s₁ = s') (.of_exec (exec_arrange harrange) ⟨rfl, rfl⟩) ?_ ?_
  · rintro groups _ ⟨rfl, rfl⟩
    split at hr
    · next harity =>
      cases hr
      refine .alloc_bind ?_
      generalize hs₂ : { s₁ with store := (s₁.store.alloc (.call ⟨op.callable, op.groups ids, none⟩)
        (s.store.span id)).2 } = s₂
      have hg₂ : Grows [] s₁ s₂ := hs₂ ▸ .alloc hg.fine _ _
      have hargs₂ := hargs₁.grow hg₂ (by simp)
      have hcalls : Calls s₂.store s₁.store.size op none ids := .inl ⟨harity, by simp [← hs₂]⟩
      have hres : Residue ρ (varsAll [.call op none args]) s [.call op none args] s₂ [s₁.store.size]
        [.call op none args] :=
        ⟨(hg.mono (by simp)).trans hg₂ (by simp),
          good_call_iff.2 ⟨ids, hcalls, hargs₂, by simp [Oper.vars]⟩, .refl _ _⟩
      refine (H.resolveCall_new hρ hg₂.fine hargs₂ harity hd hsym).mono fun r s' ho =>
        ho.of_residue hres rfl fun _ hu => hu.grow (hg.trans hg₂ (by simp)) fun j hj =>
          ⟨(hargs.bounded j ?_).2, by simp⟩
      simpa [Oper.vars] using hj
    · obtain ⟨f, hf, _⟩ := hr
      cases hf
  · rintro f _ ⟨rfl, rfl⟩
    split at hr
    · cases hr
    · next harity =>
      obtain ⟨f, hf, hfinal⟩ := hr
      cases hf
      refine .of_blocked (fun el hel => absurd hel (hfinal el)) fun _ => Oper.apply_eq_none ?_
      rw [values_eq_map, length_map, ← hargs.shows.length_eq]
      exact Bool.eq_false_of_not_eq_true harity

/-! ## Elements -/

lemma Shows.typeOf_lit (h : Shows st id (.lit v)) : st.typeOf id = v.typeOf := by
  rcases h.2 with hc | ⟨n, hc⟩
  · rw [Store.typeOf, hc]
  · rw [Store.typeOf, hc]
    rfl

lemma outerVars_typeOf (hv : v.isScalar) : v.typeOf.outerVars = [] := by
  obtain ⟨kind, hkind, hvar, _⟩ := Hint.exists_plain_typeOf hv
  rw [hkind, Ty.outerVars_plain hvar]

lemma Handles.resolveContent (H : Handles steps env ρ d) (hρ : Scalars ρ) (hs : Fine s)
    (hgood : Good ρ s [id] [e]) (hd : e.depth ≤ d + 1) (hsym : ∀ n ∈ e.symbols, Agrees env ρ n) :
    Ends (Session.resolveContent steps env id) s (Outcome env ρ .void s e) := by
  have hrefl : Residue ρ (varsAll [e]) s [e] s [id] [e] := ⟨.refl hs, hgood, .refl _ _⟩
  have hshows := hgood.shows.1
  refine .get_bind ?_
  cases e with
  | lit v =>
    have hdone : Outcome env ρ .void s (.lit v) (.ok id) s := by
      refine Outcome.void_ok hrefl rfl (.inl ⟨v, rfl⟩) fun i hi => ?_
      rw [hshows.typeOf_lit, outerVars_typeOf hshows.1] at hi
      cases hi
    obtain ⟨hv, hc | ⟨n, hc⟩⟩ := hshows
    · rw [hc]
      cases v with
      | null | bool | int | str => exact .pure hdone
      | _ => cases hv
    · rw [hc]
      exact .pure hdone
  | sym n =>
    have hwaits : Waits ρ s (.sym n) id s := ⟨_, hrefl, rfl, nofun⟩
    rw [show s.store.content id = .name n none from hshows]
    dsimp only
    rcases hsym n (by simp [symbols]) with hnone | ⟨v, hv, hρn, hsome⟩
    · rw [hnone]
      refine .throw ⟨rfl, refused_void.2 fun hc => ?_, fun _ => hwaits⟩
      by_contra hne
      exact hc.defined n (by simp [symbolsAll, symbols]) hne hnone
    · rw [hsome]
      have hg : Grows (varsAll [.sym n]) s { s with
          store := (s.store.alloc (.name n (some (.ofVal v))) (s.store.span id)).2 } :=
          .alloc hs _ _
      have hlit : Shows (s.store.alloc (.name n (some (.ofVal v))) (s.store.span id)).2 s.store.size
        (.lit v) := ⟨hv, .inr ⟨n, by simp⟩⟩
      refine Outcome.void_ok (.lit hg hlit) hρn.symm (.inl ⟨v, rfl⟩) fun i hi => ?_
      change i ∈ ((s.store.alloc (.name n (some (.ofVal v))) (s.store.span id)).2.typeOf
        s.store.size).outerVars at hi
      rw [hlit.typeOf_lit, outerVars_typeOf hv] at hi
      cases hi
  | call op mark args =>
    have hdargs : 0 < d ∧ depths args ≤ d := by
      rw [depth] at hd
      omega
    obtain ⟨ids, hcalls, hargs, _⟩ := good_call_iff.1 hgood
    cases mark with
    | some k =>
      rw [hcalls.2]
      exact H.resolveCall_visited hρ hs hgood hdargs.2 hsym hcalls.2
    | none =>
      rcases hcalls with ⟨harity, hc⟩ | ⟨head, hc, hhead⟩
      · rw [hc]
        exact H.resolveCall_new hρ hs hargs harity hdargs.2 hsym
      · rw [hc]
        exact H.resolveExpr hρ hs hargs hdargs.1 hdargs.2 hsym hhead

lemma Done.unify {r : Nat} {span : Span} (hdone : Done ρ .void s e r s₁) (hne : h ≠ .void)
    (hh : ∀ k ∈ h.vars, 0 < k ∧ k ≤ s.subst.size ∧ k ∉ varsAll [e]) :
    Ends (solve (Subst.unify (s₁.typeOf r) h.ty) span) s₁ fun u s₂ => match u with
      | .ok _ => Done ρ h s e r s₂
      | .error f => (∀ v, e.value? ρ = some v → ¬ h.Accepts s.subst v) ∧
          ∀ el, f ≠ .unresolved el := by
  obtain ⟨e', hres, hvalue, hsettled, htyp, _⟩ := hdone
  replace hres : Residue ρ (varsAll [e]) s [e] s₁ [r] [e'] := by simpa [Hint.vars] using hres
  have hfine := hres.grows.fine
  have hclosed : (s₁.typeOf r).outerVars = [] := hfine.outerVars_apply htyp
  have hg := h.grows hfine (fun k hk => (hh k hk).2.1.trans hres.grows.size_le) hclosed
  -- The variable of the hint has not been touched so far, and scalars keep their types.
  have hframe : ∀ k ∈ h.vars, s₁.subst.get? k = s.subst.get? k := fun k hk =>
    hres.grows.frame k (hh k hk).2.1 (hh k hk).2.2
  have hlit (v : Val) (hv : e' = .lit v) : v.isScalar ∧ s₁.typeOf r = v.typeOf := by
    subst hv
    obtain ⟨kind, hkind, hvar, _⟩ := Hint.exists_plain_typeOf hres.good.shows.1.1
    refine ⟨hres.good.shows.1.1, ?_⟩
    rw [Session.typeOf, hres.good.shows.1.typeOf_lit, hkind, hfine.sound.apply_plain hvar]
  have hnotvar : (s₁.subst.apply (s₁.typeOf r)).kind.isVar = false := by
    rw [Session.typeOf, hfine.sound.apply_apply]
    by_contra hvar
    simp [Session.typeOf, Ty.outerVars_of_isVar (by simpa using hvar)] at hclosed
  rcases hexec : (Subst.unify (s₁.typeOf r) h.ty).exec s₁.subst with ⟨u, σ⟩
  rw [hexec] at hg
  unfold Ends
  rw [exec_solve, hexec]
  cases u with
  | ok u =>
    refine ⟨e', ⟨?_, hres.later hg (fun k hk => (hh k hk).2.1) fun k hk hk' => (hh k hk').2.2 hk,
      hres.part⟩, hvalue, hsettled, fun i hi => hg.bound i (htyp i hi), ?_⟩
    · exact (hres.grows.mono (by simp)).trans hg fun k hk => .inl (by simp [hk])
    · cases h with
      | void => exact absurd rfl hne
      | any => trivial
      | text =>
        intro v hv
        obtain ⟨hscalar, htype⟩ := hlit v hv
        rw [htype] at hexec
        exact Hint.admits_of_unify_char hfine.sound hscalar hexec
      | number k =>
        have hk := hframe k (by simp [Hint.vars])
        rw [Hint.ty] at hexec
        refine ⟨hfine.sound.bound_of_unify hnotvar hexec, fun n hn ho => .inr ?_⟩
        obtain ⟨σ', hσ', hint⟩ :=
          hfine.sound.exec_unify_int (hh k (by simp [Hint.vars])).1 (hk ▸ ho)
        rw [(hlit _ hn).2, Val.typeOf, hσ', Prod.mk.injEq] at hexec
        exact hexec.2 ▸ hint
      | branch k =>
        rw [Hint.ty] at hexec
        exact hfine.sound.bound_of_unify hnotvar hexec
  | error f =>
    refine ⟨fun v hv hacc => ?_, by simp⟩
    obtain ⟨hscalar, htype⟩ := hlit v (hsettled.eq_lit (hvalue.trans hv))
    have hacc₁ : h.Accepts s₁.subst v := by
      cases h with
      | void | any | text => exact hacc
      | number k => exact ⟨hacc.1, by rw [Open, hframe k (by simp [Hint.vars])]; exact hacc.2⟩
      | branch k => exact (hframe k (by simp [Hint.vars])).trans hacc
    obtain ⟨u, σ', hok⟩ := hacc₁.unify hfine.sound hscalar hne fun k hk => (hh k hk).1
    rw [htype, hok] at hexec
    cases hexec

lemma Handles.resolveStep (H : Handles steps env ρ d) (hρ : Scalars ρ) (hs : Fine s)
    (hgood : Good ρ s [id] [e]) (hd : e.depth ≤ d + 1) (hsym : ∀ n ∈ e.symbols, Agrees env ρ n)
    (hh : ∀ k ∈ h.vars, 0 < k ∧ k ≤ s.subst.size ∧ k ∉ varsAll [e]) :
    Ends (Session.resolveStep steps env id h.ty) s (Outcome env ρ h s e) := by
  refine .attempt_bind ((H.resolveContent hρ hs hgood hd hsym).mono fun r s₁ ho => ?_)
  cases r with
  | error f =>
    have hrefused : Refused env ρ h s e := ho.refused.of_void
    cases f with
    | unresolved el =>
      obtain ⟨hlen, hvoid, hwaits⟩ := ho
      refine .get_bind (.throw ⟨hlen, hvoid, fun hl => ?_⟩)
      rw [if_pos (hlen.trans hl)]
      exact hwaits hl
    | _ => exact .throw hrefused
  | ok r =>
    by_cases hvoid : h = .void
    · subst hvoid
      exact .ite (fun _ => .pure ho) fun hne => absurd rfl hne
    · have hty : h.ty.isVoid = false := by
        cases h with
        | void => exact absurd rfl hvoid
        | any | text => rfl
        | number k | branch k =>
          rfl
      refine .ite (fun htrue => by simp [hty] at htrue) fun _ =>
        .typeOf_bind (.spanOf_bind (.bind (ho.unify hvoid hh) ?_ ?_))
      · exact fun u s₂ hdone => .pure hdone
      · rintro f s₂ ⟨hrefused, hfinal⟩
        exact .of_refused hfinal fun _ => hrefused

lemma resolveStep_head (hops : env.lookup op.name = .ok (some (.ofCallable op.callable)))
    (hc : s.store.content id = .name op.name none) :
    Ends (Session.resolveStep steps env id .void) s fun r s' => r = .ok s.store.size ∧
      s' = { s with store :=
  (s.store.alloc (.name op.name (some (.ofCallable op.callable))) (s.store.span id)).2 } := by
  refine .attempt_bind (.mono (Q := fun r s' => r = .ok s.store.size ∧ s' = { s with store :=
    (s.store.alloc (.name op.name (some (.ofCallable op.callable))) (s.store.span id)).2 }) ?_ ?_)
  · unfold Session.resolveContent
    refine .get_bind ?_
    rw [hc]
    dsimp only
    rw [hops]
    exact ⟨rfl, rfl⟩
  · rintro r s' ⟨rfl, rfl⟩
    exact .ite (fun _ => .pure ⟨rfl, rfl⟩) fun hne => absurd rfl hne

lemma handles (hρ : Scalars ρ)
    (hops : ∀ op : Oper, env.lookup op.name = .ok (some (.ofCallable op.callable)))
    (fuel : Nat) : Handles ⟨Session.resolveN fuel, Session.evalN fuel,
    Session.evalCallN fuel⟩ env ρ fuel := by
  induction fuel with
  | zero =>
    refine ⟨fun s id e h _ _ hd _ _ => ?_, fun _ _ _ _ hd => absurd hd (Nat.lt_irrefl 0)⟩
    exact absurd e.depth_pos (by omega)
  | succ fuel ih =>
    refine ⟨fun s id e h hs hgood hd hsym hh => ?_, fun s id op hc _ => ?_⟩
    · change Ends (Session.resolveN (fuel + 1) env id h.ty) s _
      rw [Session.resolveN]
      exact ih.resolveStep hρ hs hgood hd hsym hh
    · change Ends (Session.resolveN (fuel + 1) env id .void) s _
      exact resolveStep_head (hops op) hc

end Residual

end Resolvent
