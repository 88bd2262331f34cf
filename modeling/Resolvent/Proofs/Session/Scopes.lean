import Resolvent.Proofs.Session.Operators

/-!
# Calls that open scopes keep up a regime

Declarations are resolved one after the other, each in the scope of those before it.
-/

namespace Resolvent

open Run Operator List

namespace Operator

/-- The types of the parameters of a function literal and its body elements, with a flag that tells
whether all of these are resolved. -/
def lambdaParts (steps : Steps) (scope : Scope) (id : Nat) (c : Call) :
    Run (List Param × List Nat × Bool) := do
  let params ← resolveParams steps scope id (c.group 0)
  let p ← resolveAll steps (.params (params.map fun (n, t) => (n, .typed t)) :: scope)
    .void (c.group 1)
  return (params, p)

lemma resolveLambda_eq (steps : Steps) (scope : Scope) (id : Nat) (c : Call) :
    resolveLambda steps scope id c = (do
      let span ← spanOf id
      let (params, body, ok) ← lambdaParts steps scope id c
      if ok then
        let s ← get
        let sig := Ty.func "" (params ++ [("", (body.getLast?.map s.typeOf).getD .void)])
        let names := params.map (·.1)
        let (roots, copy) := s.store.extract body
        let (captured, waits) ← ofExcept (capture scope (freeNames names copy.elements.toList))
        if waits then
          let _ ← solve (Subst.unify c.typ.result sig) span
          finish id c [c.group 0, body] true else
          let stamp ← freshStamp
          literal (.fn ⟨sig, .closure names copy.elements roots s.subst captured, stamp⟩) span
      else finish id c [c.group 0, body] false) := by
  simp [resolveLambda, lambdaParts]

end Operator

namespace Regime

variable {G : Regime} {ι : Type} {R : ι → Steps} {s : Session} {n id d : Nat} {scope : Scope}
  {c : Call} {st st' : Store} {l : LetScope} {decls : List Nat} {params : List Param}

structure Laid (G : Regime) (n : Nat) (scope : Scope) (st : Store) (l : LetScope) : Prop where
  within : ∀ d ∈ l.decls, G.Within n st d
  declared : l.resolved → Declared G.done scope st l
  whole : G.whole → ∀ p ∈ l.defs, p.2.Whole

namespace Laid

lemma nil : G.Laid n scope st {} := ⟨by simp, fun _ => .nil, by simp⟩

lemma kept (h : G.Laid n scope st l) (hk : st.Kept st') : G.Laid n scope st' l :=
  ⟨fun d hd => (h.within d hd).kept hk,
    fun hl => (h.declared hl).kept (fun _ _ hr => G.kept hr hk) hk, h.whole⟩

end Laid

structure Parameters (G : Regime) (scope : Scope) (st : Store) (decls : List Nat)
    (params : List Param) : Prop where
  typed : Forall₂ (fun d p => ∃ a, st.content d = .decl p.1 [a] ∧ a < st.size ∧
  G.typed scope st a) decls params
  whole : G.whole → ∀ p ∈ params, p.2.Whole

lemma Parameters.kept (h : G.Parameters scope st decls params) (hk : st.Kept st') :
    G.Parameters scope st' decls params := by
  refine ⟨h.typed.imp ?_, h.whole⟩
  rintro d p ⟨a, hd, ha, htyped⟩
  exact ⟨a, hk.content hd nofun, ha.trans_le hk.size_le, G.steady htyped ha hk⟩

lemma Parameters.whole_scope (h : G.Parameters scope st decls params)
    (hscope : G.whole → scope.Whole) (hw : G.whole) :
    Scope.Whole (.params (params.map fun (n, t) => (n, .typed t)) :: scope) := by
  refine .cons (fun p hp => ?_) (hscope hw)
  obtain ⟨q, hq, rfl⟩ := List.mem_map.1 hp
  exact Definition.whole_typed (h.whole hw q hq)

section

variable (hR : G.Handles R n) (hscope : G.whole → scope.Whole)
include hR hscope

/-! ## Declarations -/

lemma upholds_resolveLetDecl (h : G.Admits s) (hd : G.Within n s.store d)
    (hl : G.Laid n scope s.store l) :
    G.Upholds n (fun i => resolveLetDecl (R i) scope l d) s fun l' st => G.Laid n scope st l' := by
  have hinner (hw : G.whole) : Scope.Whole (.locals l.defs :: scope) :=
    .cons (hl.whole hw) (hscope hw)
  refine .bind (upholds_declArg (n := n) h) ?_
  rintro ⟨name, arg⟩ s₀ hs₀ hcontent
  replace hcontent := hs₀.store.content hcontent nofun
  have harg : G.Within (n - 1) s₀.store arg :=
    (hd.kept hs₀.store).child hs₀.admits hcontent (by simp [Content.children])
  refine .bind (.raise (n.sub_le 1) (upholds_resolveOrResidual hR hinner hs₀.admits whole_void harg
    (n.sub_le 1))) ?_
  rintro ⟨r, ok⟩ s₁ hs₁ hr
  have hlt := (hr.within r (by simp)).lt_size
  refine .get_bind (.bind (.ofExcept (n := n) hs₁.admits fun _ => final_of_define)
    fun defs s₂ hs₂ hdefine => ?_)
  have hwhole (hw : G.whole) : ∀ p ∈ defs, p.2.Whole := by
    have hs := hs₁.admits.whole hw
    have hd : Definition.Whole (if ok then ⟨s₁.typeOf r, s₁.store.val? r, s₁.store.callable? r,
      false⟩ else .waiting) := by
      split
      · exact ⟨hs.typeOf r, fun v hv => hs.store.val? hv, fun c hc => hs.store.callable? hc⟩
      · exact Definition.whole_waiting
    unfold Frame.define at hdefine
    split at hdefine
    · cases hdefine
    · cases hdefine
      exact forall_mem_append.2 ⟨hl.whole hw, forall_mem_singleton.2 hd⟩
  -- The declaration that comes out, wherever it stands.
  have hsnoc {s₃ : Session} {next : Nat} (hs₃ : G.Grows s₁ s₃) (hnext : G.Within n s₃.store next)
      (hdecl : s₃.store.content next = .decl name [r]) : G.Laid n scope s₃.store
        ⟨defs, l.decls ++ [next], l.resolved && ok, l.known &&
        (!ok || (s₁.store.val? r).isSome)⟩ := by
    have hl₃ := hl.kept ((hs₀.trans hs₁).trans hs₃).store
    refine ⟨forall_mem_append.2 ⟨hl₃.within, by simpa using hnext⟩, fun hresolved => ?_, hwhole⟩
    dsimp only at hresolved
    obtain ⟨hl₀, rfl⟩ : l.resolved ∧ ok = true := by simpa using hresolved
    rw [← hs₃.store.val?_eq hlt, ← hs₃.store.callable?_eq hlt] at hdefine
    rw [hresolved, ← hs₃.store.val?_eq hlt]
    exact .snoc (hl₃.declared hl₀) hdecl (hlt.trans_le hs₃.store.size_le)
      (G.kept (hr.done rfl r (by simp)) hs₃.store) hdefine
  refine .ite (fun hsame => .pure_bind (.pure hs₂.admits ?_)) fun _ =>
    .spanOf_bind (.bind (.alloc (n := n) hs₂.admits (.decl (hr.kept hs₂.store).within)) ?_)
  · have hs := hs₁.trans hs₂
    exact hsnoc hs₂ (hd.kept (hs₀.trans hs).store) (hsame ▸ hs.store.content hcontent nofun)
  · rintro _ s₃ hs₃ ⟨hnext, rfl, hst⟩
    exact .pure hs₃.admits (hsnoc (hs₂.trans hs₃) (hd.raise hnext) (by simp [hst]))

lemma upholds_resolveLetDecls (h : G.Admits s) (hdecls : ∀ d ∈ decls, G.Within n s.store d)
    (hl : G.Laid n scope s.store l) :
    G.Upholds n (fun i => decls.foldlM (resolveLetDecl (R i) scope) l) s fun l' st =>
    G.Laid n scope st l' := by
  induction decls generalizing s l with
  | nil => exact .pure h hl
  | cons d decls ih =>
    obtain ⟨hd, hrest⟩ := forall_mem_cons.1 hdecls
    exact .bind (upholds_resolveLetDecl hR hscope h hd hl) fun l₁ s₁ hs₁ hl₁ =>
      ih hs₁.admits (hs₁.within hrest) hl₁

lemma upholds_resolveLet (h : G.Ready (n + 1) s id c) (hop : c.callable.op = .builtin .scope) :
    G.Upholds (n + 1) (fun i => resolveLet (R i) scope id c) s (G.Given (n + 1) scope) := by
  refine .spanOf_bind (.bind (.raise n.le_succ
    (upholds_resolveLetDecls hR hscope h.admits (fun _ hd => h.group hd) .nil)) fun l s₁ hs₁ hl =>
      ?_)
  have h₁ := h.grows hs₁
  have hinner (hw : G.whole) : Scope.Whole (.locals l.defs :: scope) :=
    .cons (hl.whole hw) (hscope hw)
  refine .bind (.raise n.le_succ
    (upholds_resolveLetBody hR hinner h₁.admits (fun hw => (h.whole hw).typ.result) fun _ hi =>
      h₁.group hi)) ?_
  rintro ⟨tail, ok⟩ s₂ hs₂ htail
  replace hl := hl.kept hs₂.store
  refine .get_bind ?_
  dsimp only
  split
  · next v hlast _ =>
    refine upholds_literal hs₂.admits fun hw => ?_
    obtain ⟨r, -, hv⟩ := Option.bind_eq_some_iff.1 hlast
    exact (hs₂.admits.whole hw).store.val? hv
  · next hopen =>
    refine (h₁.grows hs₂).upholds_finish (fun _ _ => .of_builtin hop rfl) ?_ ?_
    · simpa using forall_mem_append.2 ⟨hl.within, htail.within⟩
    · intro hok r st hkept hcall
      obtain ⟨hresolved, hok⟩ : l.resolved ∧ ok := by simpa using hok
      refine G.scope hcall h.sig hop rfl ((hl.kept hkept).declared hresolved)
        (htail.lt_and_done hok hkept) fun v hv => ?_
      have hlast : tail.getLast?.bind s₂.store.val? = some v := by
        rw [← hv]
        cases hr : tail.getLast? with
        | none => rfl
        | some r => exact (hkept.val?_eq (htail.within r (mem_of_getLast? hr)).lt_size).symm
      cases hknown : l.known with
      | false => rfl
      | true => exact absurd (by simp [hknown, hresolved, hok]) (hopen v hlast)

/-! ## Function literals -/

lemma upholds_resolveParams (h : G.Admits s) (hid : G.Within (n + 1) s.store id)
    (hdecls : ∀ d ∈ decls, G.Within n s.store d) :
    G.Upholds (n + 1) (fun i => resolveParams (R i) scope id decls) s fun ps st =>
    G.Parameters scope st decls ps := by
  induction decls generalizing s with
  | nil => exact .pure h ⟨.nil, by simp⟩
  | cons d decls ih =>
    obtain ⟨hd, hrest⟩ := forall_mem_cons.1 hdecls
    have hparam : G.Upholds (n + 1) (fun i => resolveParam (R i) scope id d) s fun p st =>
      G.Parameters scope st [d] [p] := by
      refine .bind (upholds_declArg h) ?_
      rintro ⟨name, arg⟩ s₀ hs₀ hcontent
      replace hcontent := hs₀.store.content hcontent (by simp)
      have harg : G.Within (n - 1) s₀.store arg :=
        (hd.kept hs₀.store).child hs₀.admits hcontent (by simp [Content.children])
      refine .attempt_bind
        (hR (n - 1) (by omega) s₀ scope arg .void hs₀.admits hscope whole_void harg)
        fun r s₁ hs₁ hr => ?_
      cases r with
      | error e =>
        have hthrow : G.Upholds (n + 1) (fun _ : ι => (throw e : Run Param)) s₁ fun p st =>
          G.Parameters scope st [d] [p] :=
          .throw hs₁.admits hr.1 fun el hel => (hr.2 el hel).mono (by omega)
        cases e with
        | unresolved el => exact .throw_unresolved hs₁.admits (hid.kept (hs₀.trans hs₁).store)
        | _ => exact hthrow
      | ok r =>
        refine .val?_bind ?_
        split
        · next t ht =>
          have htyped := G.steady (hr.2.2 t ht) harg.lt_size hs₁.store
          have hd₁ : s₁.store.content d = .decl name [arg] := hs₁.store.content hcontent (by simp)
          refine .pure hs₁.admits ⟨.cons ⟨arg, hd₁, (harg.kept hs₁.store).lt_size, htyped⟩ .nil,
            fun hw => ?_⟩
          simpa [Val.isWhole] using (hs₁.admits.whole hw).store.val? ht
        · exact .spanOf_bind (.throw_final hs₁.admits ⟨rfl, by simp⟩)
    refine .bind hparam fun p s₁ hs₁ hp => ?_
    refine .bind (ih hs₁.admits (hid.kept hs₁.store) (hs₁.within hrest)) fun ps s₂ hs₂ hps =>
      .pure hs₂.admits ?_
    replace hp := hp.kept hs₂.store
    have htyped := forall₂_cons.1 hp.typed
    exact ⟨.cons htyped.1 hps.typed, fun hw => forall_mem_cons.2 ⟨hp.whole hw p (by simp),
      hps.whole hw⟩⟩

lemma upholds_lambdaParts (h : G.Admits s) (hid : G.Within (n + 1) s.store id)
    (hargs : ∀ a ∈ c.groups.flatten, G.Within n s.store a) :
    G.Upholds (n + 1) (fun i => lambdaParts (R i) scope id c) s fun p st =>
    G.Parameters scope st (c.group 0) p.1 ∧
      G.Tried n (.params (p.1.map fun (n, t) => (n, .typed t)) :: scope) st p.2.1 p.2.2 := by
  have hgroup {i a : Nat} (ha : a ∈ c.group i) : G.Within n s.store a :=
    hargs a (c.mem_flatten_of_mem_group ha)
  refine .bind (upholds_resolveParams hR hscope h hid fun _ hd => hgroup hd)
    fun params s₁ hs₁ hparams => ?_
  refine .bind (.raise n.le_succ
    (upholds_resolveAll hR (hparams.whole_scope hscope) hs₁.admits whole_void
    (hs₁.within fun _ hi => hgroup (i := 1) hi))) fun p s₂ hs₂ hbody => ?_
  exact .pure hs₂.admits ⟨hparams.kept hs₂.store, hbody⟩

lemma upholds_resolveLambda (h : G.Admits s) (hid : G.Within (n + 1) s.store id)
    (hargs : ∀ a ∈ c.groups.flatten, G.Within n s.store a) (hwhole : G.whole → c.Whole)
    (hop : c.callable.op = .builtin .lambda) :
    G.Upholds (n + 1) (fun i => resolveLambda (R i) scope id c) s fun r st =>
      G.Within (n + 1) st r ∧
      (s.store.content id = .call c → c.sig.isSome → G.done scope st r) := by
  simp only [resolveLambda_eq]
  refine .spanOf_bind (.bind (upholds_lambdaParts hR hscope h hid hargs) ?_)
  rintro ⟨params, body, ok⟩ s₂ hs₂ ⟨hparams, hbody⟩
  have harity (_ : G.orderly) (_ : G.catalog.HasBuiltins) : c.callable.Takes [c.group 0, body] :=
    .of_builtin hop rfl
  have hgroups {s₃ : Session} (hs₃ : G.Grows s₂ s₃) : ∀ a ∈ [c.group 0, body].flatten,
    G.Within n s₃.store a := by
    have hdecls := (hs₂.trans hs₃).within fun _ hd =>
      hargs _ (c.mem_flatten_of_mem_group (i := 0) hd)
    simpa using forall_mem_append.2 ⟨hdecls, hs₃.within hbody.within⟩
  refine .ite (fun hok => .get_bind ?_) fun _ => ?_
  · dsimp only
    have hsig (hw : G.whole) :
      (Ty.func "" (params ++ [("", (body.getLast?.map s₂.typeOf).getD .void)])).Whole := by
      refine .detailed rfl rfl (forall_mem_append.2 ⟨hparams.whole hw, ?_⟩)
      cases body.getLast? with
      | none => simpa using whole_void hw
      | some r => simpa using (hs₂.admits.whole hw).typeOf r
    refine .bind (.ofExcept hs₂.admits fun _ => final_of_capture) ?_
    rintro ⟨captured, waits⟩ s₃ hs₃ hcapture
    refine .ite (fun hwaits =>
      .bind (upholds_unify hs₃.admits (fun hw => (hwhole hw).typ.result) hsig)
      (fun _ s₄ hs₄ _ => ?_)) fun _ => ?_
    · have hs₂₄ := hs₃.trans hs₄
      refine (upholds_finish hs₄.admits (hid.kept (hs₂.trans hs₂₄).store) hwhole harity
        (hgroups hs₂₄)).mono ?_
      rintro r st ⟨hr, -, hkept, hcall⟩
      refine ⟨hr, fun hcontent hsome => ?_⟩
      have hkept₂ := hs₂₄.store.trans hkept
      refine G.lambda (hcall ((hs₂.trans hs₂₄).store.content hcontent (by simp))) hsome hop rfl
        (hparams.kept hkept₂).typed (hbody.lt_and_done hok hkept₂) ?_
      rw [hkept₂.extract_eq fun a ha => (hbody.within a ha).within_size hs₂.admits]
      exact (congrArg (Except.map Prod.snd) hcapture).trans (congrArg Except.ok hwaits)
    · refine .bind (upholds_freshStamp hs₃.admits) fun stamp s₄ hs₄ _ => ?_
      refine (Upholds.literal hs₄.admits fun hw => ?_).mono (fun _ _ hr =>
        ⟨hr.1, fun _ _ => done_literal hr.2⟩)
      exact decide_eq_true (hsig hw)
  · refine (upholds_finish hs₂.admits (hid.kept hs₂.store) hwhole harity
      (hgroups (.refl hs₂.admits))).mono ?_
    rintro r st ⟨-, hfalse, -⟩
    cases hfalse

/-! ## Calls -/

lemma upholds_resolveBuiltin {b : Builtin} (h : G.Ready (n + 1) s id c)
    (hop : c.callable.op = .builtin b) :
    G.Upholds (n + 1) (fun i => resolveBuiltin b (R i) scope id c) s (G.Given (n + 1) scope) := by
  cases b with
  | and | or =>
    refine upholds_resolveLogic hR hscope h (fun _ => .of_builtin hop rfl) fun kept st hne hun => ?_
    simp only [Call.Rests, hop]
    exact ⟨rfl, hne, hun⟩
  | not => exact upholds_resolveNot hR hscope h hop
  | cond => exact upholds_resolveCond hR hscope h hop
  | scope => exact upholds_resolveLet hR hscope h hop
  | lambda =>
    exact (upholds_resolveLambda hR hscope h.admits h.element h.args h.whole hop).mono fun _ _ hr =>
      ⟨hr.1, hr.2 h.content h.sig⟩
  | construct => exact upholds_resolveConstruct hR hscope h hop
  | fail | append | merge =>
    exact upholds_resolvePlain hR hscope h fun _ _ => by simp only [Call.Rests, hop]
  | ok => exact upholds_resolveFold hR hscope h Reduce.atom_truth fun _ _
      hf => by simpa only [Call.Rests, hop] using hf
  | add => exact upholds_resolveFold hR hscope h Reduce.atom_sum fun _ _
      hf => by simpa only [Call.Rests, hop] using hf
  | cat => exact upholds_resolveFold hR hscope h Reduce.atom_concat fun _ _
      hf => by simpa only [Call.Rests, hop] using hf
  | eq => exact upholds_resolveFold hR hscope h Reduce.atom_equality fun _ _
      hf => by simpa only [Call.Rests, hop] using hf
  | lt => exact upholds_resolveFold hR hscope h Reduce.atom_order fun _ _
      hf => by simpa only [Call.Rests, hop] using hf

lemma upholds_resolve (h : G.Ready (n + 1) s id c) :
    G.Upholds (n + 1) (fun i => resolve (R i) scope id c) s (G.Given (n + 1) scope) := by
  unfold resolve
  cases hop : c.callable.op with
  | builtin b => exact upholds_resolveBuiltin hR hscope h hop
  | closure | apply | collect =>
    exact upholds_resolvePlain hR hscope h fun _ _ => by simp only [Call.Rests, hop]

end

end Regime

end Resolvent
