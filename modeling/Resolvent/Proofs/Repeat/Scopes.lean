import Resolvent.Proofs.Repeat.Firm

/-!
# Calls that open scopes, resolved again

Declarations are resolved one after the other, each in the scope of those before it.
-/

namespace Resolvent.Operator

open Run Session List

variable {s : Session} {id fuel r : Nat} {scope scope' : Scope} {steps : Steps} {c : Call}
  {b : Builtin} {l : LetScope}
  {catalog : Catalog} {strict : Prop} {st : Store} {decls tail ids body : List Nat}
    {params : List Param} {n : String}

/-! ## Declarations -/

namespace LetScope

/-- The declarations have come out as those of the other, all of them resolved; types may differ. -/
structure Like (l l' : LetScope) : Prop where
  defs : untypedAll l.defs = untypedAll l'.defs
  decls : l.decls = l'.decls
  resolved : l.resolved
  known : l.known = l'.known

end LetScope

lemma yields_declArg {d a : Nat} (h : s.Orderly) (hd : s.store.content d = .decl n [a]) :
    Yields strict (declArg d) s fun p _ => p = (n, a) := by
  refine .get_bind ?_
  rw [hd]
  exact .pure h rfl

lemma define_like {defs defs' defs₁ : List (String × Definition)} {d d' : Definition}
    (hdefs : untypedAll defs = untypedAll defs') (hd : d.untyped = d'.untyped)
    (h : Frame.define defs' n d' = .ok defs₁) :
    ∃ defs₂, Frame.define defs n d = .ok defs₂ ∧ untypedAll defs₂ = untypedAll defs₁ := by
  have hany (l : List (String × Definition)) : (l.any fun p => p.1 == n) =
    (untypedAll l).any fun p => p.1 == n := by
    simp [untypedAll, Function.comp_def]
  have htaken : (defs.any fun p => p.1 == n) = defs'.any fun p => p.1 == n := by
    rw [hany defs, hdefs, ← hany defs']
  unfold Frame.define at h ⊢
  split at h
  · cases h
  · next hfree =>
    cases h
    refine ⟨defs ++ [(n, d)], if_neg (htaken ▸ hfree), ?_⟩
    unfold untypedAll at hdefs ⊢
    simp [hdefs, hd]

lemma ensures_resolveLetDecl {decl : Nat} (hl : l.resolved = false) :
    Ensures (resolveLetDecl steps scope l decl) s fun l => l.resolved = false := by
  refine .bind .any fun p s₁ _ => .bind .any fun q s₂ _ => .bind .any fun s₃ _ _ =>
    .bind .any fun defs s₄ _ => ?_
  refine .ite (fun _ => .pure (by simp [hl])) fun _ => .bind .any fun _ _ _ =>
    .bind .any fun _ _ _ => .pure (by simp [hl])

lemma Declared.tries (h : Declared (Firm · catalog) scope st l)
    (hres : Resumes scope catalog st r s scope' (fuel + 1))
    (hdecls : ∀ d ∈ l.decls, s.store.Sees r d) :
    Tries (s.store.ParamsWritten r) (l.decls.foldlM (resolveLetDecl (stepsN fuel) scope') {}) s
    (fun l' _ => l'.Like l) fun l' => l'.resolved = false := by
  induction h with
  | nil => exact .pure hres.orderly ⟨rfl, rfl, rfl, rfl⟩
  | @snoc l d n a t defs _ hd ha hfirm hdefine ih =>
    rw [foldlM_append]
    refine .bind (ih fun d hd => hdecls d (by simp [hd])) (fun l' s₁ hg₁ hl' => ?_) fun l' s₁ hl' =>
      ?_
    · have hsees := hdecls d (by simp)
      have hlt : d < s.store.size := hres.orderly.child_lt rfl (Content.visible_subset _ hsees)
      have hres₁ := (hres.child hsees).grown hlt hg₁
      have hd₁ : s₁.store.content d = .decl n [a] := hres₁.kept.content hd nofun
      have hsees₁ : s₁.store.Sees d a := by
        simp [Store.Sees, hd₁, Content.visible, Content.children]
      have hsteady : (stepsN fuel).Steady (s₁.store.ParamsWritten d)
        (.locals l'.defs :: scope') s₁ a :=
        hfirm.steady hres₁ hsees₁ (hres.like.locals hl'.defs.symm)
      have hwrites (hwritten : s.store.ParamsWritten r) : s₁.store.ParamsWritten d :=
        (hwritten.child hsees).kept hres.orderly hlt hg₁.store
      refine Tries.relax ?_ hwrites
      refine .bind (P := fun l₁ _ => l₁.Like ⟨defs, l.decls ++ [d], true, l.known &&
        (st.val? a).isSome⟩)
        (S := fun l₁ => l₁.resolved = false) ?_ (fun l₁ s₂ hg₂ hl₁ => .pure hg₂.orderly hl₁)
        fun l₁ s₂ hl₁ => .pure hl₁
      refine .bind (yields_declArg hg₁.orderly hd₁) ?_ fun _ _ hfalse => hfalse.elim
      rintro _ s₀ hg₀ rfl
      refine .bind (tries_resolveOrResidual hg₀.orderly (hsteady.grown hg₀)) ?_ ?_
      · rintro _ s₂ hg₂ rfl
        have hval := (hres₁.kept.trans (hg₀.trans hg₂).store).val?_eq ha
        have hcallable := (hres₁.kept.trans (hg₀.trans hg₂).store).callable?_eq ha
        obtain ⟨defs₂, hdefine₂, hlike⟩ :=
          define_like (d := ⟨s₂.typeOf a, s₂.store.val? a, s₂.store.callable? a, false⟩)
          hl'.defs (by simp [Definition.untyped, hval, hcallable]) hdefine
        refine .get_bind ?_
        simp only [if_true, hdefine₂]
        refine .pure_bind (.pure_bind (.pure hg₂.orderly ?_))
        exact ⟨hlike, by rw [hl'.decls], by simp [hl'.resolved], by simp [hl'.known, hval]⟩
      · rintro ⟨r, _⟩ s₂ ⟨⟩
        refine .bind .any fun s₃ _ _ => .bind .any fun defs s₄ _ => ?_
        refine .ite (fun _ => .pure (by simp)) fun _ => .bind .any fun _ _ _ =>
          .bind .any fun _ _ _ => .pure (by simp)
    · exact .bind (ensures_resolveLetDecl hl') fun l₁ s₂ hl₁ => .pure hl₁

lemma tries_resolveLetBody {result : Ty} (h : s.Orderly)
    (hids : ∀ a ∈ ids, steps.Steady strict scope s a) :
    Tries strict (resolveLetBody steps scope result ids) s (fun p _ => p = (ids, true)) fun p =>
    p.2 = false := by
  induction ids generalizing s with
  | nil => exact .pure h rfl
  | cons a ids ih =>
    refine .bind (tries_resolveOrResidual h (hids a (by simp))) ?_ ?_
    · rintro _ s₁ hg₁ rfl
      refine .bind (ih hg₁.orderly fun b hb => (hids b (by simp [hb])).grown hg₁) ?_ ?_
      · rintro _ s₂ hg₂ rfl
        exact .pure hg₂.orderly rfl
      · rintro ⟨rs, _⟩ s₂ ⟨⟩
        exact .pure rfl
    · rintro ⟨r, _⟩ s₁ ⟨⟩
      exact .bind .any fun p s₂ _ => .pure rfl

lemma ensures_letResult {ok : Bool} {span : Span} (hfalse : (l.resolved && ok) = false) :
    Ensures (do
      let last := ids.getLast?.bind (← get).store.val?
      match last, l.known && (l.resolved && ok) with
      | some v, true => literal v span
      | _, _ => finish id c [l.decls, ids] (l.resolved && ok)) s fun _ => False := by
  refine .bind .any fun s₁ _ _ => ?_
  rw [hfalse, Bool.and_false]
  cases ids.getLast?.bind s₁.store.val? <;> exact ensures_finish

lemma yields_resolveLet (hres : Resumes scope catalog st r s scope' (fuel + 1)) (hc : c.At s r)
    (hop : c.callable.op.isLambda = false)
    (hgroups : c.groups = [l.decls, tail]) (hdeclared : Declared (Firm · catalog) scope st l)
    (hlt : ∀ a ∈ tail, a < st.size)
    (htail : ∀ a ∈ tail, Firm (.locals l.defs :: scope) catalog st a)
    (hopen : ∀ v, tail.getLast?.bind st.val? = some v → l.known = false) :
    Yields (s.store.ParamsWritten r) (resolveLet (stepsN fuel) scope' r c) s fun a _ => a = r := by
  have hsees (a : Nat) (ha : a ∈ l.decls ++ tail) : s.store.Sees r a := by
    rw [Store.Sees, hc.content, Content.visible, hop, hgroups]
    simpa using ha
  have hdecls : c.group 0 = l.decls := by simp [Call.group, hgroups]
  have hbody : c.group 1 = tail := by simp [Call.group, hgroups]
  unfold resolveLet
  rw [hdecls, hbody]
  refine .spanOf_bind (.bind (hdeclared.tries hres fun d hd => hsees d (by simp [hd]))
    (fun l' s₁ hg₁ hlike => ?_)
    fun l' s₁ hl' => .bind .any fun p s₂ _ => ensures_letResult (by simp [hl']))
  have hsteady (a : Nat) (ha : a ∈ tail) :
    (stepsN fuel).Steady (s.store.ParamsWritten r) (.locals l'.defs :: scope') s₁ a :=
    ((htail a ha).steady hres (hsees a (by simp [ha])) (hres.like.locals hlike.defs.symm)).grown hg₁
  refine .bind (tries_resolveLetBody hg₁.orderly hsteady) ?_ ?_
  · rintro _ s₂ hg₂ rfl
    have hlast : tail.getLast?.bind s₂.store.val? = tail.getLast?.bind st.val? := by
      cases hl : tail.getLast? with
      | none => rfl
      | some a => exact (hres.kept.trans (hg₁.trans hg₂).store).val?_eq (hlt a (mem_of_getLast? hl))
    refine .get_bind ?_
    dsimp only
    rw [hlast]
    split
    · next v hv hknown =>
      rw [hlike.known, hopen v hv] at hknown
      cases hknown
    · simp only [hlike.resolved]
      exact yields_finish hg₂.orderly (by rw [hlike.decls, hgroups])
  · rintro ⟨rs, _⟩ s₂ ⟨⟩
    exact ensures_letResult (by simp)

/-! ## Parameters -/

lemma yields_resolveN_written {a : Nat} (h : s.Orderly) (hlike : scope.Like scope')
    (hwhole : s.store.WholeUpTo a) (hwritten : (s.store.content a).isWritten)
    (hnames : NamesType scope s.store a) :
    Yields strict (resolveN (fuel + 1) scope' a .void) s fun r st => ∃ t,
    st.val? r = some (.typ t) := by
  refine yields_resolveStep ?_ (.get_bind ?_)
  · rintro r s₁ s₂ hg ⟨t, ht⟩
    refine ⟨t, ?_⟩
    rwa [hg.store.val?_eq (Store.lt_size_of_content_ne fun hc => by simp [Store.val?, hc] at ht)]
  · dsimp only
    unfold NamesType at hnames
    split at hnames
    · next n hc =>
      obtain ⟨d, t, hlookup, hpending, hval⟩ := hnames
      obtain ⟨d', hlookup', hsame⟩ := hlike.lookup hlookup
      have hpending' : d'.pending = false := (congrArg Definition.pending hsame).symm.trans hpending
      have hval' : d'.val = some (.typ t) := (congrArg Definition.val hsame).symm.trans hval
      rw [hc]
      simp only [hlookup']
      refine .pure_bind (.ite (fun hp => absurd hp (by simp [hpending'])) fun _ => ?_)
      refine (Tries.alloc h (.name hpending')).mono fun r s₁ _ hr => ⟨t, ?_⟩
      simp only [Store.val?, hr, hval']
    · next n d hc =>
      obtain ⟨t, ht⟩ := hnames
      rw [hc]
      exact .pure h ⟨t, by simp [Store.val?, hc, ht]⟩
    · next hnone hsome =>
      unfold Content.isWritten at hwritten
      split at hwritten
      · next t hc =>
        have hrefs : resolveRefs (schema? scope') t = .ok (some t) :=
          resolveRefs_of_whole (hwhole a le_rfl t hc)
        rw [hc]
        simp only [refsIn, hrefs]
        refine .pure_bind (.ite (fun _ => .pure h ⟨t, by simp [Store.val?, hc]⟩) fun hne =>
          absurd (Ty.equal_self t) hne)
      · next n d hc =>
        cases d with
        | none => exact absurd hc (hnone n)
        | some d => exact absurd hc (hsome n d)
      · cases hwritten

lemma names_eq {st' : Store} {Q Q' : Nat → Prop} {ps qs : List Param} (hk : st.Kept st')
    (hps : Forall₂ (fun d p => ∃ a, st.content d = .decl p.1 [a] ∧ Q a) decls ps)
    (hqs : Forall₂ (fun d p => ∃ a, st'.content d = .decl p.1 [a] ∧ Q' a) decls qs) :
    qs.map (·.1) = ps.map (·.1) := by
  induction hps generalizing qs with
  | nil =>
    cases hqs
    rfl
  | @cons d p decls ps hp _ ih =>
    cases hqs with
    | @cons _ q _ qs hq hqs =>
      obtain ⟨a, hp, -⟩ := hp
      obtain ⟨a', hq, -⟩ := hq
      have hname : p.1 = q.1 ∧ a = a' := by simpa [hk.content hp nofun] using hq
      rw [map_cons, map_cons, hname.1, ih hqs]

lemma untypedAll_typed (ps : List Param) :
    untypedAll (ps.map fun (n, t) => (n, .typed t)) = (ps.map (·.1)).map fun n =>
    (n, .typed .void) := by
  rw [untypedAll, List.map_map, List.map_map]
  rfl

lemma yields_resolveParams
    (h : s.Orderly) (hid : id < s.store.size) (hlt : ∀ d ∈ decls, d < s.store.size)
    (hlike : scope.Like scope')
    (hparams : Forall₂ (fun d p => ∃ a, s.store.content d = .decl p.1 [a] ∧
    NamesType scope s.store a) decls params) (hwhole : ∀ d ∈ decls, s.store.WholeUpTo d)
    (hwritten : strict → ∀ d ∈ decls, s.store.isWrittenParam d) (hfuel : ∀ d ∈ decls, d < fuel) :
    Yields strict (resolveParams (stepsN fuel) scope' id decls) s fun ps _ => ps.map (·.1) =
    params.map (·.1) := by
  by_cases hstrict : strict
  · suffices hgrown : ∀ s', s.Grown s' →
        Yields strict (resolveParams (stepsN fuel) scope' id decls) s' fun ps _ =>
          ps.map (·.1) = params.map (·.1) from hgrown s (.refl h)
    replace hwritten := hwritten hstrict
    clear hlt
    induction hparams with
    | nil => exact fun s' hg => .pure hg.orderly rfl
    | @cons d p decls params hp _ ih =>
      intro s' hg
      obtain ⟨a, hd, hnames⟩ := hp
      obtain ⟨n, a', hd', ha⟩ := Store.exists_of_isWrittenParam (hwritten d (by simp))
      obtain ⟨rfl, rfl⟩ : p.1 = n ∧ a = a' := by simpa [hd] using hd'
      have hlt : a < s.store.size := h.child_lt hd (by simp [Content.children])
      have hle : a ≤ d := ((h d).backward a (by simp [hd, Content.children])).le
      have hwhole' : s.store.WholeUpTo a := fun x hx => hwhole d (by simp) x (hx.trans hle)
      have hparam : Yields strict (resolveParam (stepsN fuel) scope' id d) s' fun q _ =>
        q.1 = p.1 := by
        refine .bind (yields_declArg hg.orderly (hg.store.content hd nofun)) ?_ fun _ _ hfalse =>
          hfalse.elim
        rintro _ s₁ hg₁ rfl
        have hg₁ := hg.trans hg₁
        obtain ⟨fuel, rfl⟩ :=
          Nat.exists_eq_succ_of_ne_zero (Nat.ne_of_gt (Nat.zero_lt_of_lt (hfuel d (by simp))))
        have ha₁ : (s₁.store.content a).isWritten := by rwa [hg₁.store.content_eq hlt]
        refine .attempt_bind
          (yields_resolveN_written hg₁.orderly hlike (hwhole'.kept hlt hg₁.store) ha₁
          (hnames.kept hlt hg₁.store)) ?_ ?_
        · rintro r s₂ hg₂ ⟨t, ht⟩
          refine .val?_bind ?_
          rw [ht]
          exact .pure hg₂.orderly rfl
        · intro e s₂ he
          cases e with
          | unresolved el => exact absurd (he hstrict) nofun
          | _ => exact .throw he
      refine .bind hparam (fun q s₁ hg₁ hq => ?_) fun _ _ hfalse => hfalse.elim
      have hrest := ih (fun d hd => hwhole d (by simp [hd])) (fun d hd => hfuel d (by simp [hd]))
        (fun d hd => hwritten d (by simp [hd])) s₁ (hg.trans hg₁)
      refine .bind hrest (fun qs s₂ hg₂ hqs => .pure hg₂.orderly ?_) fun _ _ hfalse => hfalse.elim
      simp [hq, hqs]
  · have hs := Regime.admits_complete h False.elim
    have hb : ¬ (Regime.complete s.catalog False).bounded := Regime.not_bounded_complete
    have hkeeps : Keeps (resolveParams (stepsN fuel) scope' id decls) s
        fun ps st => (Regime.complete s.catalog False).Parameters scope' st decls ps :=
      (Regime.upholds_resolveParams (Regime.handles_stepsN hb fuel 0) False.elim hs (.of_lt hb hid)
        fun d hd => .of_lt hb (hlt d hd)).keeps trivial hs
    exact (Tries.of_keeps hstrict hkeeps).mono fun ps s' hg hps =>
      names_eq hg.store hparams hps.typed

/-! ## Calls -/

lemma firm_let (hc : st.content r = .call c)
    (hsig : c.sig.isSome) (hop : c.callable.op = .builtin .scope)
    (hgroups : c.groups = [l.decls, tail]) (hl : Declared (Firm · catalog) scope st l)
    (htail : ∀ a ∈ tail, a < st.size ∧ Firm (.locals l.defs :: scope) catalog st a)
    (hopen : ∀ v, tail.getLast?.bind st.val? = some v → l.known = false) :
    Firm scope catalog st r := by
  refine firm_of_call hc hsig fun s scope' fuel hres hat => ?_
  simp only [resolve, hop]
  exact yields_resolveLet hres hat (by rw [hop]; rfl) hgroups hl (fun a ha => (htail a ha).1)
    (fun a ha => (htail a ha).2) hopen

lemma firm_lambda (hc : st.content r = .call c) (hsig : c.sig.isSome)
    (hop : c.callable.op = .builtin .lambda) (hgroups : c.groups = [decls, body])
    (hparams : Forall₂ (fun d p => ∃ a, st.content d = .decl p.1 [a] ∧ a < st.size ∧
    NamesType scope st a) decls params) (hbody : ∀ a ∈ body, a < st.size ∧
    Firm (.params (params.map fun (n, t) => (n, .typed t)) :: scope) catalog st a)
    (hwaits : (capture scope (freeNames (params.map (·.1)) (st.extract body).2.elements.toList)).map
    (·.2) = .ok true) : Firm scope catalog st r := by
  refine firm_of_call hc hsig fun s scope' fuel hres hat => ?_
  have hlambda : c.callable.op.isLambda := by rw [hop]; rfl
  have hdecls : c.group 0 = decls := by simp [Call.group, hgroups]
  have hdr (d : Nat) (hd : d ∈ decls) : d < r :=
    (hres.orderly r).backward d (by simp [hat.content, Content.children, hgroups, hd])
  simp only [resolve, hop]
  have hagain : Yields (s.store.ParamsWritten r) (resolveParams (stepsN fuel) scope' r decls) s
      fun ps _ => ps.map (·.1) = params.map (·.1) := by
    refine yields_resolveParams hres.orderly hat.id_lt (fun d hd =>
      (hdr d hd).trans hat.id_lt) hres.like
      (hparams.imp fun d p hp => ?_) (fun d hd x hx => hres.whole x (hx.trans (hdr d hd).le))
      (fun hwritten d hd => hwritten.param hat.content hlambda (hdecls ▸ hd))
      fun d hd => (hdr d hd).trans_le (Nat.le_of_lt_succ hres.bound)
    obtain ⟨a, hd, ha, hnames⟩ := hp
    exact ⟨a, hres.kept.content hd (by simp), hnames.kept ha hres.kept⟩
  refine yields_resolveLambda hat hgroups hagain (fun ps hps a ha => ?_) ?_
  · refine (hbody a ha).2.steady hres ?_ (hres.like.params ?_)
    · rw [Store.Sees, hat.content, Content.visible, if_pos hlambda, hgroups]
      simpa using ha
    · rw [untypedAll_typed, untypedAll_typed, hps]
  · rw [← hres.like.capture_eq, hres.kept.extract_eq fun a ha =>
      (hres.kept.orderly hres.orderly).founded.shallow (hbody a ha).1]
    exact hwaits

end Resolvent.Operator
