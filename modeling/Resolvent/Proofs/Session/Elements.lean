import Resolvent.Proofs.Session.Scopes

/-!
# Elements keep up a regime

Elements that are no calls, and the choice of the operator for an expression.
-/

namespace Resolvent

open Run Operator Session

namespace Session

/-- The call that an expression becomes: its head resolved, its arguments laid out, with a signature
of its own. -/
def callOf (steps : Steps) (scope : Scope) (id : Nat) (items : List Nat) : Run (Nat × Call) := do
  let span ← spanOf id
  match items with
  | [] => throw (.dispatch .void span)
  | head :: rest =>
    let (h, ok) ← resolveOrResidual steps scope head .void
    if ok then
      let (callable, args) ← match (← get).store.callable? h with
        | some c => pure (c, rest)
        | none => do pure (← defaultCallable h span, h :: rest)
      let groups ← arrange callable.params args
      instantiate (← alloc (.call ⟨callable, groups, none⟩) span) ⟨callable, groups, none⟩ else
      throw (.unresolved (← alloc (.expr (h :: rest)) span))

lemma resolveExpr_eq (steps : Steps) (scope : Scope) (id : Nat) (items : List Nat) :
    resolveExpr steps scope id items = (do
      let (id, c) ← callOf steps scope id items
      Operator.resolve steps scope id c) := by
  cases items with
  | nil => rfl
  | cons head rest =>
    simp only [resolveExpr, callOf, resolveCall, bind_assoc]
    refine bind_congr fun span => bind_congr fun p => ?_
    split
    · simp only [bind_assoc]
      refine bind_congr fun s => ?_
      cases s.store.callable? p.1 <;> simp only [bind_assoc]
    · simp only [bind_assoc]
      rfl

end Session

namespace Regime

variable {G : Regime} {ι : Type} {R : ι → Steps} {s : Session} {n id head : Nat} {scope : Scope}
  {hint : Ty} {c : Call} {span : Span} {items : List Nat}

lemma upholds_instantiate (h : G.Admits s) (hid : G.Within (n + 1) s.store id)
    (hc : s.store.content id = .call c) : G.Upholds (n + 1) (fun _ : ι => instantiate id c) s
      fun p st => G.Within (n + 1) st p.1 ∧ st.content p.1 = .call p.2 ∧ p.2.sig.isSome := by
  unfold instantiate
  split
  · next hsig => exact .pure h ⟨hid, hc, by simp [hsig]⟩
  · have hwhole (hw : G.whole) : c.callable.sig.Whole := by
      have hc' := (h.whole hw).store id
      rw [hc] at hc'
      exact hc'.callable
    have hs : G.Admits { s with subst := (s.subst.instantiateGeneric c.callable.sig).2 } := {
      catalog := h.catalog
      orderly := h.orderly
      whole := fun hw => ⟨(h.whole hw).store, ((h.whole hw).subst.instantiateGeneric (hwhole hw)).2,
      (h.whole hw).catalog⟩
      sound := fun hb => (h.sound hb).run (.instantiateGeneric _) }
    have hgrows : G.Grows s { s with subst := (s.subst.instantiateGeneric c.callable.sig).2 } :=
      ⟨.refl _, hs, rfl, fun hs => hs.run (.instantiateGeneric _)⟩
    have hcall : G.Allows n s.store
      (.call { c with sig := some (s.subst.instantiateGeneric c.callable.sig).1 }) :=
      .call (fun a ha => hid.child h hc ha) (fun ho hb =>
        (h.orderly ho id).arity (h.catalog ▸ hb) c hc)
        fun hw => ⟨hwhole hw, by simpa using ((h.whole hw).subst.instantiateGeneric (hwhole hw)).1⟩
    refine .get_bind (.bind (.of_exec (P := fun _ st => st = s.store) (r := .ok ()) rfl hgrows rfl)
      fun _ s₁ hs₁ hst₁ => ?_)
    refine .bind (.alloc hs₁.admits (hst₁ ▸ hcall)) ?_
    rintro _ s₂ hs₂ ⟨hnext, rfl, hst⟩
    exact .pure hs₂.admits ⟨hnext, by simp [hst], rfl⟩

lemma upholds_callable? (h : G.Admits s) (b : Builtin) : G.Upholds n (fun _ : ι => do
    match (← get).catalog.callable? b.name with
    | some c => pure c
    | none => throw (.dispatch (← Run.typeOf head) span)) s fun c _ => G.whole → c.sig.Whole := by
  refine .get_bind ?_
  split
  · next hc => exact .pure h fun hw => (h.whole hw).catalog.callable? hc
  · exact .typeOf_bind (.throw_final h ⟨rfl, by simp⟩)

lemma upholds_defaultCallable (h : G.Admits s) :
    G.Upholds n (fun _ : ι => defaultCallable head span) s fun c _ => G.whole → c.sig.Whole := by
  refine .val?_bind ?_
  split
  · exact .pure_bind (upholds_callable? h .construct)
  · refine .typeOf_bind (.bind (upholds_choose h fun hw => (h.whole hw).typeOf head)
      (fun t s₁ hs₁ ht => ?_))
    refine .ite (fun _ => .pure_bind (.pure hs₁.admits fun hw => ?_)) fun _ => ?_
    · exact .detailed rfl rfl (List.forall_mem_cons.2 ⟨ht hw, fun p hp => (ht hw).part hp⟩)
    · split
      · next b _ => exact .pure_bind (upholds_callable? hs₁.admits b)
      · exact .throw_final hs₁.admits ⟨rfl, by simp⟩

lemma upholds_tried {next : Nat} {content : Content} {ok : Bool} (h : G.Admits s)
    (hnext : G.Within (n + 1) s.store next)
    (hc : s.store.content next = content) (hcall : ∀ c, content ≠ .call c)
    (hres : content.isResolved) (htried : G.Tried n scope s.store content.children ok) :
    G.Upholds (n + 1) (fun _ : ι => if ok then pure next else throw (.unresolved next)) s
    (G.Given (n + 1) scope) := by
  subst hc
  exact .ite (fun hok => .pure h ⟨hnext, G.data hcall (fun _ => hres) (htried.done hok)⟩) fun _ =>
    .throw_unresolved h hnext

section

variable (hR : G.Handles R n) (hscope : G.whole → scope.Whole)
include hR hscope

lemma upholds_callOf (h : G.Admits s) (hitems : ∀ i ∈ items, G.Within n s.store i) :
    G.Upholds (n + 1) (fun i => callOf (R i) scope id items) s
      fun p st => G.Within (n + 1) st p.1 ∧ st.content p.1 = .call p.2 ∧ p.2.sig.isSome := by
  refine .spanOf_bind ?_
  cases items with
  | nil => exact .throw_final h ⟨rfl, nofun⟩
  | cons head rest =>
    have hlaid {s : Session} {span : Span} {callable : Callable} {args : List Nat} (h : G.Admits s)
        (hargs : ∀ a ∈ args, G.Within n s.store a) (hsig : G.whole → callable.sig.Whole) :
        G.Upholds (n + 1) (fun _ : ι => do
          let groups ← arrange callable.params args
          instantiate (← alloc (.call ⟨callable, groups, none⟩) span) ⟨callable, groups, none⟩) s
          fun p st => G.Within (n + 1) st p.1 ∧ st.content p.1 = .call p.2 ∧ p.2.sig.isSome := by
      refine .bind (upholds_arrange callable.params h hargs) ?_
      rintro groups s₁ hs₁ ⟨hlen, hgroups⟩
      refine .bind (.alloc hs₁.admits (.call hgroups (fun _ _ _ => hlen) fun hw =>
        ⟨hsig hw, nofun⟩)) ?_
      rintro _ s₂ hs₂ ⟨hel, rfl, hst⟩
      exact upholds_instantiate hs₂.admits hel (by simp [hst])
    refine .bind (.raise n.le_succ (upholds_resolveOrResidual hR hscope h whole_void
      (hitems head (by simp)) le_rfl)) ?_
    rintro ⟨r, ok⟩ s₁ hs₁ hr
    have hrest := hs₁.within fun i hi => hitems i (List.mem_cons_of_mem head hi)
    have hall : ∀ i ∈ r :: rest, G.Within n s₁.store i :=
      List.forall_mem_cons.2 ⟨hr.within r (by simp), hrest⟩
    refine .ite (fun _ => .get_bind ?_) fun _ =>
      .bind (.alloc hs₁.admits (.expr hall)) (fun el s₂ hs₂ hel => ?_)
    · dsimp only
      cases hcallable : s₁.store.callable? r with
      | some callable => exact hlaid hs₁.admits hrest fun hw =>
        (hs₁.admits.whole hw).store.callable? hcallable
      | none =>
        refine .bind (upholds_defaultCallable hs₁.admits) (fun callable s₂ hs₂ hsig =>
          .pure_bind ?_)
        exact hlaid hs₂.admits (hs₂.within hall) hsig
    · exact .throw_unresolved hs₂.admits hel.1

lemma upholds_resolveExpr (h : G.Admits s) (hitems : ∀ i ∈ items, G.Within n s.store i) :
    G.Upholds (n + 1) (fun i => resolveExpr (R i) scope id items) s (G.Given (n + 1) scope) := by
  simp only [resolveExpr_eq]
  exact .bind (upholds_callOf hR hscope h hitems)
    (fun _ _ hs₁ ⟨hid, hc, hsig⟩ => upholds_resolve hR hscope ⟨hs₁.admits, hid, hc, hsig⟩)

lemma upholds_resolveCall (h : G.Admits s) (hid : G.Within (n + 1) s.store id)
    (hc : s.store.content id = .call c) :
    G.Upholds (n + 1) (fun i => resolveCall (R i) scope id c) s (G.Given (n + 1) scope) :=
  .bind (upholds_instantiate h hid hc)
    (fun _ _ hs₁ ⟨hid, hc, hsig⟩ => upholds_resolve hR hscope ⟨hs₁.admits, hid, hc, hsig⟩)

lemma upholds_resolveContent (h : G.Admits s) (hid : G.Within (n + 1) s.store id) :
    G.Upholds (n + 1) (fun i => resolveContent (R i) scope id) s
      fun r st => G.Given (n + 1) scope r st ∧ ∀ t, st.val? r = some (.typ t) →
      G.typed scope s.store id := by
  -- Unless the element is a name, there is nothing to show if it turns out to be a type.
  have hother {m : ι → Run Nat} (hm : G.Upholds (n + 1) m s (G.Given (n + 1) scope))
    (hnames : NamesType scope s.store id) :
      G.Upholds (n + 1) m s fun r st => G.Given (n + 1) scope r st ∧
      ∀ t, st.val? r = some (.typ t) → G.typed scope s.store id :=
    hm.mono (fun _ _ hr => ⟨hr, fun _ _ => G.named hnames⟩)
  have hwaits {s₁ : Session} {P : Nat → Store → Prop} (hs₁ : G.Grows s s₁) :
      G.Upholds (n + 1) (fun _ : ι => (throw (.unresolved id) : Run Nat)) s₁ P :=
    .throw_unresolved hs₁.admits (hid.kept hs₁.store)
  refine .get_bind ?_
  cases hc : s.store.content id with
  | literal v =>
    refine hother ?_ (by simp [NamesType, hc])
    have hv (hw : G.whole) : v.isWhole := by
      have hv := (h.whole hw).store id
      rwa [hc] at hv
    have hsame : G.Upholds (n + 1) (fun _ : ι => (pure id : Run Nat)) s (G.Given (n + 1) scope) :=
      .pure h ⟨hid, done_literal hc⟩
    cases v with
    | typ t =>
      refine .bind (upholds_refsIn h) fun r s₁ hs₁ hr => ?_
      cases r with
      | none => exact hwaits hs₁
      | some r =>
        refine .ite (fun _ => .pure hs₁.admits ⟨hid.kept hs₁.store,
          done_literal (hs₁.store.content hc (by simp))⟩) fun _ => ?_
        refine upholds_literal hs₁.admits fun hw => ?_
        -- A whole type has no references to resolve.
        have ht : t.Whole := by simpa [Val.isWhole] using hv hw
        have hrefs : resolveRefs (schema? scope) t = .ok (some t) := resolveRefs_of_whole ht
        cases hr.symm.trans hrefs
        exact hv hw
    | _ => exact hsame
  | name m d =>
    cases d with
    | some d =>
      refine .pure h ⟨⟨hid, G.data (by simp [hc]) (fun ho => ?_) (by simp [hc, Content.children])⟩,
        fun t ht => G.named ?_⟩
      · simp [hc, Content.isResolved, (h.orderly ho id).known m d hc]
      · simp only [Store.val?, hc] at ht
        simp only [NamesType, hc]
        exact ⟨t, ht⟩
    | none =>
      refine .bind (.ofExcept h fun _ => final_of_lookup) fun found s₁ hs₁ hfound => ?_
      cases found with
      | none => exact hwaits hs₁
      | some d =>
        refine .ite (fun _ => hwaits hs₁) fun hd => ?_
        replace hd := Bool.eq_false_iff.2 hd
        have hallows : G.Allows n s₁.store (.name m (some d)) := {
          children := by simp [Content.children]
          names := fun hb => show G.names m from (hid.shallow hb).namesIn hc
          known := by
            rintro - _ _ ⟨⟩
            exact hd
          arity := by simp
          whole := fun hw => by simpa [Content.Whole] using (hscope hw).lookup hfound }
        refine (Upholds.alloc hs₁.admits hallows).mono ?_
        rintro _ _ ⟨hr, rfl, rfl⟩
        refine ⟨⟨hr, G.data (by simp) (fun _ => by simp [Content.isResolved, hd])
          (by simp [Content.children])⟩, fun t ht => G.named ?_⟩
        simp only [Store.val?, Store.content_alloc_size] at ht
        simp only [NamesType, hc]
        exact ⟨d, t, hfound, hd, ht⟩
  | tag m el =>
    refine hother ?_ (by simp [NamesType, hc])
    cases el with
    | none => exact .pure h ⟨hid, G.data (by simp [hc]) (fun _ => by simp [hc, Content.isResolved])
        (by simp [hc, Content.children])⟩
    | some el =>
      have hel := hid.child h hc (by simp [Content.children] : el ∈ _)
      refine .bind (.raise n.le_succ (upholds_resolveOrResidual hR hscope h whole_void hel le_rfl))
        ?_
      rintro ⟨r, ok⟩ s₁ hs₁ hr
      refine .ite (fun hsame => .pure_bind ?_) fun _ =>
        .bind (.alloc hs₁.admits (.tag (hr.within r (by simp)))) ?_
      · subst hsame
        exact upholds_tried hs₁.admits (hid.kept hs₁.store) (hs₁.store.content hc (by simp))
          (by simp) rfl hr
      · rintro _ s₂ hs₂ ⟨hnext, rfl, hst⟩
        have hcontent : s₂.store.content s₁.store.size = .tag m (some r) := by simp [hst]
        exact upholds_tried hs₂.admits hnext hcontent (by simp) rfl (hr.kept hs₂.store)
  | decl m args =>
    refine hother ?_ (by simp [NamesType, hc])
    refine .bind (.raise n.le_succ (upholds_resolveAll hR hscope h whole_void fun i hi =>
      hid.child h hc hi)) ?_
    rintro ⟨rs, ok⟩ s₁ hs₁ hr
    refine .ite (fun hsame => .pure_bind ?_) fun _ => .bind (.alloc hs₁.admits (.decl hr.within)) ?_
    · subst hsame
      exact upholds_tried hs₁.admits (hid.kept hs₁.store) (hs₁.store.content hc (by simp))
        (by simp) rfl hr
    · rintro _ s₂ hs₂ ⟨hnext, rfl, hst⟩
      have hcontent : s₂.store.content s₁.store.size = .decl m rs := by simp [hst]
      exact upholds_tried hs₂.admits hnext hcontent (by simp) rfl (hr.kept hs₂.store)
  | expr items =>
    exact hother (upholds_resolveExpr hR hscope h fun i hi => hid.child h hc hi)
      (by simp [NamesType, hc])
  | call c => exact hother (upholds_resolveCall hR hscope h hid hc) (by simp [NamesType, hc])

lemma upholds_resolveStep (h : G.Admits s) (hhint : G.whole → hint.Whole)
    (hid : G.Within (n + 1) s.store id) :
    G.Upholds (n + 1) (fun i => resolveStep (R i) scope id hint) s fun r st =>
      G.Within (n + 1) st r ∧ G.done scope st r ∧ ∀ t, st.val? r = some (.typ t) →
      G.typed scope s.store id := by
  refine .attempt_bind (upholds_resolveContent hR hscope h hid) fun r s₁ hs₁ hr => ?_
  cases r with
  | error e =>
    have hthrow : G.Upholds (n + 1) (fun _ : ι => (throw e : Run Nat)) s₁ fun r st =>
      G.Within (n + 1) st r ∧ G.done scope st r ∧ ∀ t, st.val? r = some (.typ t) →
        G.typed scope s.store id :=
      .throw hs₁.admits hr.1 hr.2
    cases e with
    | unresolved el =>
      refine .get_bind (.throw_unresolved hs₁.admits ?_)
      split
      · exact hr.2 el rfl
      · exact hid.kept hs₁.store
    | _ => exact hthrow
  | ok r =>
    obtain ⟨⟨hwithin, hdone⟩, htyped⟩ := hr
    refine .ite (fun _ => .pure hs₁.admits ⟨hwithin, hdone, htyped⟩) fun _ =>
      .typeOf_bind (.spanOf_bind ?_)
    refine .bind (upholds_unify hs₁.admits (fun hw => (hs₁.admits.whole hw).typeOf r) hhint)
      fun _ s₂ hs₂ _ => ?_
    refine .pure hs₂.admits ⟨hwithin.kept hs₂.store, G.kept hdone hs₂.store,
      fun t ht => htyped t ?_⟩
    rwa [hs₂.store.val?_eq hwithin.lt_size] at ht

end

/-! ## The recursion -/

lemma handles_stepsN (hb : ¬ G.bounded) (fuel n : Nat) :
    G.Handles (fun _ : Unit => ⟨resolveN fuel, evalN fuel, evalCallN fuel⟩) n := by
  induction fuel generalizing n with
  | zero => exact fun m hm s scope id hint h _ _ _ => .throw h (fun hbounded =>
    absurd hbounded hb) nofun
  | succ fuel ih =>
    intro m hm s scope id hint h hscope hhint hid
    refine (upholds_resolveStep (ih m) hscope h hhint (.of_lt hb hid.lt_size)).level hb
      fun r st hr => ?_
    exact ⟨.of_lt hb hr.1.lt_size, hr.2⟩

end Regime

end Resolvent
