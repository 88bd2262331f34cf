import Resolvent.Proofs.Independence.Resolve
import Resolvent.Proofs.Session.Termination

/-!
# Elements in two sessions at once

An element is resolved as its copy is, and to a copy: by what it is, and then by the recursion to
any depth.
-/

namespace Resolvent

open Run Session List

namespace Copying

variable {W : Copying} {s s' : Session} {id head : Nat} {scope scope' : Scope} {R R' : Steps}
  {c : Call} {span span' : Span} {callable : Callable} {b : Builtin}

/-! ## Calls -/

/-- The operator of a call: one that makes no functions, or the one that applies a function. -/
def Calls (callable : Callable) : Prop := callable.isFirstOrder ∨ callable.op = .apply

lemma sig_callable (hcallable : Calls callable) :
    ∃ g : Nat → Nat, StrictMono g ∧ (W.callable callable).sig = callable.sig.rename g := by
  rcases hcallable with hfirst | hop
  · rw [W.callable_of_isFirstOrder hfirst]
    exact ⟨fun n => n, strictMono_id, (Ty.rename_id _).symm⟩
  · exact ⟨shift W.before, shift_strictMono _, by simp [Copying.callable, hop, ty]⟩

lemma map_fst_params (hcallable : Calls callable) :
    (W.callable callable).params.map Prod.fst = callable.params.map Prod.fst := by
  obtain ⟨g, -, hsig⟩ := sig_callable (W := W) hcallable
  simp [Callable.params, hsig]

lemma parallel_instantiate (h : W.Tracks s s') (hid : id < s.store.size)
    (hc : s.store.content id = .call c) :
    W.Parallel (instantiate id c) (instantiate (W.place id) (W.call c)) s s' fun p p' st _ =>
      p' = (W.place p.1, W.call p.2) ∧ At st p.1 p.2 ∧ p.2.groups = c.groups := by
  have hplain := h.store.plain_of hid hc
  obtain ⟨callable, groups, sig⟩ := c
  cases sig with
  | some sig => exact .pure h ⟨rfl, ⟨hid, hc, rfl⟩, rfl⟩
  | none =>
    refine .get_bind ?_
    obtain ⟨g, hg, hcallable⟩ := sig_callable (W := W) hplain.1
    obtain ⟨hty, hsubst⟩ := h.subst.instantiateGeneric hg callable.sig
    rw [← hcallable] at hty hsubst
    have hset : W.Parallel (set { s with subst := (s.subst.instantiateGeneric callable.sig).2 })
        (set { s' with subst := (s'.subst.instantiateGeneric (W.callable callable).sig).2 }) s s'
        fun _ _ st _ => st = s.store :=
      .of_exec rfl rfl ⟨.refl _, .refl _, h.store, hsubst, h.catalog, h.builtins, h.lenient⟩ rfl
    refine .bind hset fun _ _ t t' hg' hst => ?_
    have hcall := congrArg (fun sig => Call.mk (W.callable callable) (groups.map (·.map W.place))
      (some sig)) hty
    refine .bind (.alloc_copy hg'.tracks ⟨hplain.1, hg'.operands hplain.2⟩
      (congrArg Content.call hcall.symm)) ?_
    rintro next _ u u' hg'' ⟨rfl, hlt, hnext⟩
    exact .pure hg''.tracks ⟨congrArg (Prod.mk (W.place next)) hcall, ⟨hlt, hnext, rfl⟩, rfl⟩

lemma defaultBuiltin_rename {f : Nat → Nat} (hf : Function.Injective f) (t : Ty) :
    defaultBuiltin (t.rename f) = defaultBuiltin t := by
  have hbool : (t.kind.rename f).deopt = .bool ↔ t.kind.deopt = .bool := by
    rw [Kind.deopt, ← Kind.withOptional_rename]
    exact Kind.rename_inj (k := .bool) hf
  simp only [defaultBuiltin, hbool, Ty.kind_rename, Kind.isNum_rename, Kind.isChar_rename,
    Kind.isKeyr_rename, Kind.isIdxr_rename]

lemma defaultBuiltin_ne_lambda {t : Ty} (h : defaultBuiltin t = some b) : b ≠ .lambda := by
  unfold defaultBuiltin at h
  split_ifs at h <;> cases h <;> decide

lemma applyCallable_rename (t : Ty) :
    applyCallable (t.rename (shift W.before)) = W.callable (applyCallable t) := by
  rw [applyCallable, Ty.params_rename, ← Ty.renameParams_eq_map]
  rfl

lemma parallel_callable? (h : W.Tracks s s') (hb : b ≠ .lambda) : W.Parallel (do
      match (← get).catalog.callable? b.name with
      | some c => pure c
      | none => throw (.dispatch (← Run.typeOf head) span)) (do
      match (← get).catalog.callable? b.name with
      | some c => pure c
      | none => throw (.dispatch (← Run.typeOf (W.place head)) span')) s s' fun c c' _ _ => c' =
          W.callable c ∧ Calls c := by
  refine .get_bind ?_
  rw [h.catalog]
  cases hc : s.catalog.callable? b.name with
  | none => exact .typeOf_bind (.throw_bare h rfl (by simp))
  | some c =>
    have hfirst := isFirstOrder_builtin h hb hc
    exact .pure h ⟨(W.callable_of_isFirstOrder hfirst).symm, .inl hfirst⟩

lemma parallel_defaultCallable (h : W.Tracks s s') (hhead : W.Typed s.store s'.store head) :
    W.Parallel (defaultCallable head span) (defaultCallable (W.place head) span') s s'
    fun c c' _ _ =>
      c' = W.callable c ∧ Calls c := by
  refine .val?_bind ?_
  rw [h.store.val?_eq hhead.operand.1]
  split
  · exact .pure_bind (parallel_callable? h (by decide))
  · refine .typeOf_bind ?_
    rw [h.typeOf_eq hhead]
    refine .bind (.solve h (h.subst.parallel_choose _)) ?_
    rintro t _ u u' hg rfl
    simp only [Ty.kind_rename, Kind.bare_rename, Ty.params_rename, isEmpty_map,
      defaultBuiltin_rename (shift_injective W.before)]
    refine .ite Iff.rfl (fun _ => .pure_bind (.pure hg.tracks ⟨applyCallable_rename t, .inr rfl⟩))
      fun _ => ?_
    cases hb : defaultBuiltin t with
    | none => exact .throw_bare hg.tracks rfl (by simp)
    | some b => exact .pure_bind (parallel_callable? hg.tracks (defaultBuiltin_ne_lambda hb))

section

variable (hR : W.Resolves R R') (hscope : W.Scopes scope scope') (h : W.Tracks s s')
  {d : Option Definition} {n : String}
include hR hscope h

lemma parallel_resolveCall (hid : id < s.store.size) (hc : s.store.content id = .call c) :
    W.Parallel (resolveCall R scope id c) (resolveCall R' scope' (W.place id) (W.call c)) s s'
    W.Result := by
  refine .bind (parallel_instantiate h hid hc) ?_
  rintro ⟨next, c⟩ _ t t' hg ⟨rfl, hc, -⟩
  exact parallel_resolve hR hscope hg.tracks hc

lemma parallel_callItems {args : List Nat} (hcallable : Calls callable)
    (hargs : ∀ a ∈ args, W.Operand s.store a) (span span' : Span) : W.Parallel (do
        let groups ← arrange callable.params args
        resolveCall R scope (← alloc (.call ⟨callable, groups, none⟩) span) ⟨callable,
          groups, none⟩) (do
        let groups ← arrange (W.callable callable).params (args.map W.place)
        resolveCall R' scope' (← alloc (.call ⟨W.callable callable, groups, none⟩) span')
          ⟨W.callable callable, groups, none⟩) s s' W.Result := by
  refine .bind (parallel_arrange (map_fst_params hcallable) h hargs) ?_
  rintro groups _ t t' hg ⟨rfl, hgroups⟩
  refine .bind (.alloc (e := .call ⟨callable, groups, none⟩) hg.tracks ⟨hcallable, hgroups⟩) ?_
  rintro el _ u u' hg' ⟨rfl, hlt, hel⟩
  exact parallel_resolveCall hR hscope hg'.tracks hlt hel

lemma parallel_resolveOperator (hid : id < s.store.size)
    (hc : s.store.content id = .name n d) (hn : W.operator n = some callable) :
    W.Parallel (resolveOrResidual R scope id .void) (resolveOrResidual R' scope' (W.place id) .void)
    s s' fun p p' st st' =>
      p'.2 = p.2 ∧ (p.2 → st.callable? p.1 = some callable ∧ st'.callable? p'.1 = some callable) ∧
        (¬ p.2 → p'.1 = W.place p.1 ∧ W.Operand st p.1) := by
  refine .attempt_bind (hR.operator h hscope hid hc hn) fun r r' t t' hg hr => ?_
  rcases r with e | r <;> rcases r' with e' | r'
  · refine .bind (parallel_residual hg.tracks hr) ?_
    rintro el _ u u' hg' ⟨rfl, hel⟩
    exact .pure hg'.tracks ⟨rfl, nofun, fun _ => ⟨rfl, hel⟩⟩
  · exact hr.elim
  · exact hr.elim
  · exact .pure hg.tracks ⟨rfl, fun _ => hr, nofun⟩

lemma parallel_resolveExpr {items : List Nat} (hitems : W.Plain s.store (.expr items)) :
    W.Parallel (resolveExpr R scope id items)
    (resolveExpr R' scope' (W.place id) (items.map W.place)) s s' W.Result := by
  refine .spanOf_bind ?_
  cases items with
  | nil => exact .throw_bare h rfl nofun
  | cons head rest =>
    have hhead : head < s.store.size := hitems.1 head rfl
    have hrest : ∀ i ∈ rest, W.Operand s.store i := hitems.2
    by_cases hop : W.Operand s.store head
    · refine .bind (parallel_resolveOrResidual hR hscope h hop) ?_
      rintro ⟨r, ok⟩ _ t t' hg ⟨rfl, hr, htyped⟩
      have hrest := hg.operands hrest
      refine .ite Iff.rfl (fun hok => .get_bind ?_) fun _ => ?_
      · obtain ⟨hcallable, hcallable'⟩ := hg.tracks.store.callable?_of_operand hr
        simp only [hcallable, hcallable']
        refine .bind (parallel_defaultCallable hg.tracks (htyped hok)) ?_
        rintro callable _ u u' hg' ⟨rfl, hcalls⟩
        have hall : ∀ i ∈ r :: rest, W.Operand t.store i := forall_mem_cons.2 ⟨hr, hrest⟩
        exact .pure_bind (parallel_callItems hR hscope hg'.tracks hcalls (hg'.operands hall) _ _)
      · refine .bind (.alloc (e := .expr (r :: rest)) hg.tracks ⟨by simpa using hr.1, hrest⟩) ?_
        rintro el _ u u' hg' ⟨rfl, hlt, hel⟩
        exact .throw_unresolved hg'.tracks (.of_content hlt hel nofun)
    · obtain ⟨n, d, c, hc, hn⟩ : ∃ n d c, s.store.content head = .name n d ∧
        W.operator n = some c := by
        simp only [Operand, hhead, true_and, not_forall] at hop
        obtain ⟨n, d, hc, hn⟩ := hop
        exact ⟨n, d, _, hc, (Option.ne_none_iff_exists'.1 hn).choose_spec⟩
      have hfirst : c.isFirstOrder := by
        have hplain := h.store.plain_of hhead hc
        rw [Plain, hn] at hplain
        exact hplain.1
      refine .bind (parallel_resolveOperator hR hscope h hhead hc hn) ?_
      rintro ⟨r, ok⟩ ⟨r', ok'⟩ t t' hg ⟨hsame, hok, herr⟩
      obtain rfl : ok' = ok := hsame
      have hrest := hg.operands hrest
      refine .ite Iff.rfl (fun hb => .get_bind ?_) fun hb => ?_
      · simp only [(hok hb).1, (hok hb).2]
        have hitems := parallel_callItems hR hscope hg.tracks (.inl hfirst) hrest (s.store.span id)
          (s'.store.span (W.place id))
        rwa [W.callable_of_isFirstOrder hfirst] at hitems
      · obtain ⟨hplace, hr⟩ := herr hb
        obtain rfl : r' = W.place r := hplace
        refine .bind (.alloc (e := .expr (r :: rest)) hg.tracks ⟨by simpa using hr.1, hrest⟩) ?_
        rintro el _ u u' hg' ⟨rfl, hlt, hel⟩
        exact .throw_unresolved hg'.tracks (.of_content hlt hel nofun)

/-! ## Elements -/

lemma parallel_resolveContent (hid : W.Operand s.store id) :
    W.Parallel (resolveContent R scope id) (resolveContent R' scope' (W.place id)) s s'
    W.Result := by
  have hplain := h.store.plain id hid.1
  refine .get_bind ?_
  have hsame (htyped : W.Typed s.store s'.store id) : W.Parallel
    (pure id : Run Nat) (pure (W.place id)) s s' W.Result := .pure h ⟨rfl, htyped⟩
  rw [h.store.content_eq id hid.1]
  cases hc : s.store.content id with
  | literal v =>
    have htyped : W.Typed s.store s'.store id := .literal h.store hid.1 hc
    rw [hc] at hplain
    cases v with
    | typ t =>
      have ht : t.isGround := by simpa [Plain, Val.isGround] using hplain
      refine .bind (hscope.parallel_refsIn h ht) ?_
      rintro _ r u u' hg ⟨rfl, hr⟩
      cases r with
      | none => exact .throw_unresolved hg.tracks (hid.kept hg.left)
      | some r =>
        refine .ite Iff.rfl (fun _ => .pure hg.tracks ⟨rfl, hg.typed h htyped⟩) fun _ =>
          .literal hg.tracks ?_
        simpa [Val.isGround] using hr r rfl
    | _ => exact hsame htyped
  | name n d =>
    have hn : W.operator n = none := hid.2 n d hc
    cases d with
    | some d => exact hsame (.name h.store hid.1 hc hn)
    | none =>
      refine .bind (hscope.parallel_lookup h hn) ?_
      rintro found _ t t' hg ⟨rfl, hfound⟩
      cases found with
      | none => exact .throw_unresolved hg.tracks (hid.kept hg.left)
      | some d =>
        refine .ite (by rw [pending_definition]) (fun _ =>
          .throw_unresolved hg.tracks (hid.kept hg.left)) fun _ => ?_
        have hname : W.Plain t.store (.name n (some d)) := by
          rw [Plain, hn]
          simpa using hfound d rfl
        refine (Parallel.alloc (e := .name n (some d)) hg.tracks hname).mono ?_
        rintro r _ u u' hg' ⟨rfl, hlt, hr⟩
        exact ⟨rfl, .name hg'.tracks.store hlt hr hn⟩
  | tag n el =>
    cases el with
    | none => exact hsame (.tag h.store hid.1 hc (by simp))
    | some el =>
      rw [hc] at hplain
      refine .bind (parallel_resolveOrResidual hR hscope h (hplain el rfl)) ?_
      rintro ⟨r, ok⟩ _ t t' hg ⟨rfl, hr, htyped⟩
      have hc := (hg.left.content_eq hid.1).trans hc
      have hid := hid.kept hg.left
      refine .ite W.mono.injective.eq_iff (fun heq =>
        .pure_bind (.finished hg.tracks hid fun hok => ⟨rfl, ?_⟩)) fun _ => ?_
      · cases heq
        exact .tag hg.tracks.store hid.1 hc (by simpa using htyped hok)
      · refine .bind (.alloc (e := .tag n (some r)) hg.tracks (by simpa [Plain] using hr)) ?_
        rintro next _ u u' hg' ⟨rfl, hlt, hnext⟩
        refine .finished hg'.tracks (.of_content hlt hnext (by simp)) fun hok =>
          ⟨rfl, .tag hg'.tracks.store hlt hnext ?_⟩
        simpa using hg'.typed hg.tracks (htyped hok)
  | decl n args =>
    rw [hc] at hplain
    refine .bind (parallel_resolveAll hR hscope h hplain.2) ?_
    rintro ⟨rs, ok⟩ _ t t' hg ⟨rfl, hrs, htyped⟩
    have hc := (hg.left.content_eq hid.1).trans hc
    have hid := hid.kept hg.left
    have hsame : rs.map W.place = args.map W.place ↔ rs = args :=
      (map_injective_iff.2 W.mono.injective).eq_iff
    refine .ite hsame (fun heq => .pure_bind (.finished hg.tracks hid fun hok => ⟨rfl, ?_⟩))
      fun _ => ?_
    · cases heq
      exact .decl hg.tracks.store hid.1 hc fun x hx => htyped hok x (mem_of_getLast? hx)
    · refine .bind (.alloc (e := .decl n rs) hg.tracks ⟨hplain.1, hrs⟩) ?_
      rintro next _ u u' hg' ⟨rfl, hlt, hnext⟩
      refine .finished hg'.tracks (.of_content hlt hnext (by simp)) fun hok =>
        ⟨rfl, .decl hg'.tracks.store hlt hnext ?_⟩
      exact fun x hx => hg'.typed hg.tracks (htyped hok x (mem_of_getLast? hx))
  | expr items =>
    rw [hc] at hplain
    exact parallel_resolveExpr hR hscope h hplain
  | call c => exact parallel_resolveCall hR hscope h hid.1 hc

lemma parallel_resolveStep (hid : W.Operand s.store id) (hint : Ty) :
    W.Parallel (resolveStep R scope id hint) (resolveStep R' scope' (W.place id) (W.ty hint)) s s'
    W.Result := by
  refine .attempt_bind (parallel_resolveContent hR hscope h hid) fun r r' t t' hg hr => ?_
  rcases r with e | r <;> rcases r' with e' | r'
  · by_cases hel : ∃ el, e = .unresolved el
    · obtain ⟨el, rfl⟩ := hel
      obtain ⟨rfl, hop⟩ := hr.2 el rfl
      refine .get_bind ?_
      rw [hg.tracks.lenient, ← apply_ite W.place]
      exact .throw_unresolved hg.tracks (by split; exacts [hop, hid.kept hg.left])
    · have hne (el : Nat) : e ≠ .unresolved el := fun heq => hel ⟨el, heq⟩
      have hne' := Failure.ne_unresolved_of_bare_eq hr.1 hne
      split
      · next el heq => exact absurd (Except.error.inj heq) (hne el)
      · next heq =>
        cases heq
        exact .throw hg.tracks hr
      · next heq => cases heq
  · exact hr.elim
  · exact hr.elim
  · obtain ⟨rfl, hr⟩ := hr
    refine .ite (by rw [ty, Ty.isVoid_rename]) (fun _ => .pure hg.tracks ⟨rfl, hr⟩) fun _ =>
      .typeOf_bind (.spanOf_bind ?_)
    rw [hg.tracks.typeOf_eq hr]
    refine .bind (.solve hg.tracks (hg.tracks.subst.parallel_unify _ _)) fun _ _ u u' hg' _ => ?_
    exact .pure hg'.tracks ⟨rfl, hg'.typed hg.tracks hr⟩

omit hR in
lemma parallel_resolveStep_operator (hid : id < s.store.size)
    (hc : s.store.content id = .name n d) (hn : W.operator n = some callable) :
    W.Parallel (resolveStep R scope id .void) (resolveStep R' scope' (W.place id) .void) s s'
    fun r r' st st' =>
      st.callable? r = some callable ∧ st'.callable? r' = some callable := by
  have hplain := h.store.plain_of hid hc
  have hc' := h.store.content_place hid hc
  rw [Plain, hn] at hplain
  -- Nothing can fail here, so both runs are written out.
  have hstep {R : Steps} {scope : Scope} {s t : Session} {id r : Nat}
    (hexec : (resolveContent R scope id).exec s = (.ok r, t)) :
      (resolveStep R scope id .void).exec s = (.ok r, t) := by
    rw [resolveStep, exec_attempt_bind, hexec]
    rfl
  cases d with
  | some d =>
    have hcallable : s.store.callable? id = some callable ∧ s'.store.callable? (W.place id) =
      some callable := by
      simp [Store.callable?, hc, hc', content, hplain.2 d rfl]
    have hknown {R : Steps} {scope : Scope} {s : Session} {id : Nat} {d : Definition}
      (hc : s.store.content id = .name n (some d)) :
        (resolveContent R scope id).exec s = (.ok id, s) := by
      rw [resolveContent, exec_get_bind, hc]
      rfl
    exact .of_exec (hstep (hknown hc)) (hstep (hknown hc')) (.refl h) hcallable
  | none =>
    obtain ⟨d, hd, hd', hcallable, -, hpending⟩ := hscope.operator hn
    have hname : W.Plain s.store (.name n (some d)) := by
      rw [Plain, hn]
      exact ⟨hplain.1, by simpa using hcallable⟩
    have hdefinition : W.definition d = d := by simp [definition, hcallable]
    have hlookup {R : Steps} {scope : Scope} {s : Session} {id : Nat}
      (hc : s.store.content id = .name n none) (hd : scope.lookup n = .ok (some d)) :
        (resolveContent R scope id).exec s =
        (alloc (.name n (some d)) (s.store.span id)).exec s := by
      rw [resolveContent, exec_get_bind, hc]
      dsimp only
      rw [hd]
      change (if d.pending = true then _ else alloc (.name n (some d)) (s.store.span id) :
        Run Nat).exec s = _
      rw [hpending]
      rfl
    obtain ⟨hg, -⟩ : W.Parallel (alloc (.name n (some d)) (s.store.span id))
        (alloc (.name n (some d)) (s'.store.span (W.place id))) s s' _ :=
      .alloc_copy h hname (congrArg (fun d => Content.name n (some d)) hdefinition)
    have hnew (st : Store) (span : Span) : (st.alloc (.name n (some d)) span).2.callable? st.size =
      some callable := by
      rw [Store.callable?, Store.content_alloc_size]
      exact hcallable
    exact .of_exec (hstep (hlookup hc hd)) (hstep (hlookup hc' hd')) hg ⟨hnew _ _, hnew _ _⟩

end

/-! ## The recursion -/

lemma Resolves.step (hR : W.Resolves R R') (stop stop' : Steps) :
    W.Resolves { stop with resolve := resolveStep R } { stop' with resolve := resolveStep R' } where
  operand hint h hscope hid := parallel_resolveStep hR hscope h hid hint
  operator h hscope hid hc hn := parallel_resolveStep_operator hscope h hid hc hn

/-- The steps that give up at once. -/
def exhausted : Steps :=
  ⟨fun _ _ _ => throw .exhausted, fun _ _ _ => throw .exhausted, fun _ _ _ _ => throw .exhausted⟩

lemma resolves_deep (n : Nat) : W.Resolves (exhausted.deep n) (exhausted.deep n) := by
  induction n with
  | zero => exact ⟨fun _ h _ _ => .throw_bare h rfl nofun, fun h _ _ _ _ => .throw_bare h rfl nofun⟩
  | succ n ih => exact ih.step exhausted exhausted

lemma children_content (e : Content) : (W.content e).children = e.children.map W.place := by
  cases e with
  | tag n el => cases el <;> rfl
  | call c => simp [content, call, Content.children]
  | _ => rfl

lemma Copied.shallow {st st' : Store} {n : Nat} (h : W.Copied st st') (hid : st.Shallow ⊤ n id) :
    st'.Shallow ⊤ n (W.place id) := by
  induction n generalizing id with
  | zero => exact hid.elim
  | succ n ih =>
    refine ⟨h.place_lt hid.lt_size, by cases st'.content (W.place id) <;> trivial, ?_⟩
    rw [h.content_eq id hid.lt_size, children_content]
    exact List.forall_mem_map.2 fun x hx => ih (hid.child rfl hx)

lemma parallel_resolveN {n fuel fuel' : Nat} (h : W.Tracks s s') (hscope : W.Scopes scope scope')
    (hid : W.Operand s.store id)
    (hn : s.store.Shallow ⊤ n id) (hfuel : n ≤ fuel) (hfuel' : n ≤ fuel') (hint : Ty) :
    W.Parallel (resolveN fuel scope id hint) (resolveN fuel' scope' (W.place id) (W.ty hint)) s s'
    fun r r' st st' =>
      W.Result r r' st st' ∧ st.Shallow ⊤ n r := by
  obtain ⟨x, t, hexec, -, hx⟩ := upholds_recursive h.subst.left hn scope hint
  obtain ⟨x', t', hexec', -, -⟩ :=
    upholds_recursive h.subst.right (h.store.shallow hn) scope' (W.ty hint)
  obtain ⟨hgrown, hends⟩ := (resolves_deep (W := W) n).operand hint h hscope hid
  rw [hexec ⟨_, .deep exhausted le_rfl⟩, hexec' ⟨_, .deep exhausted le_rfl⟩] at hgrown hends
  refine .of_exec (hexec ⟨_, .ofFuel hfuel⟩) (hexec' ⟨_, .ofFuel hfuel'⟩) hgrown ?_
  cases x with
  | error e => cases x' <;> exact hends
  | ok r =>
    cases x' with
    | error e' => exact hends
    | ok r' => exact ⟨hends, hx⟩

lemma parallel_resolve_operand (h : W.Tracks s s') (hscope : W.Scopes scope scope')
    (hst : s.store.Founded) (hst' : s'.store.Founded) (hid : W.Operand s.store id) (hint : Ty) :
    W.Parallel (resolve scope id hint) (resolve scope' (W.place id) (W.ty hint)) s s' W.Result := by
  let n := max s.store.size s'.store.size
  have hexec := (resolve_terminates hst h.subst.left hid.1 scope hint).1 n
    (le_max_left _ _) exhausted
  have hexec' := (resolve_terminates hst' h.subst.right (h.store.place_lt hid.1) scope'
    (W.ty hint)).1 n (le_max_right _ _) exhausted
  have hdeep := (resolves_deep (W := W) n).operand hint h hscope hid
  unfold Parallel at hdeep ⊢
  rwa [hexec, hexec'] at hdeep

end Copying

end Resolvent
