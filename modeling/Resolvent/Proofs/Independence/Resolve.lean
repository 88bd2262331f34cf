import Resolvent.Proofs.Independence.Arguments
import Resolvent.Proofs.Subst.Depth

/-!
# Calls in two sessions at once

A call is resolved as its copy is, and to a copy: each operator that makes no functions reads the
same off its arguments in both sessions.
-/

namespace Resolvent

open Run Subst List Option

/-- What a `let` declares of an element; the flag tells whether it has been resolved. -/
def Session.declared (s : Session) (r : Nat) (ok : Bool) : Definition :=
  if ok then ⟨s.typeOf r, s.store.val? r, s.store.callable? r, false⟩ else .waiting

namespace Copying

open Operator

variable {W : Copying} {s s' : Session} {id r : Nat} {scope scope' : Scope} {R R' : Steps}
  {c : Call} {ids kept decls : List Nat}

/-! ## Operators -/

namespace Copied

variable {st st' : Store} (h : W.Copied st st') (hargs : ∀ a ∈ c.groups.flatten, W.Operand st a)
include h

lemma mapM_val?_eq (hids : ∀ i ∈ ids, i < st.size) :
    (ids.map W.place).mapM st'.val? = ids.mapM st.val? := by
  induction ids with
  | nil => rfl
  | cons id ids ih =>
    simp only [map_cons, mapM_cons, h.val?_eq (hids id (by simp)),
      ih fun i hi => hids i (by simp [hi])]

include hargs

lemma target?_eq : target? st' (W.call c) = target? st c := by
  unfold target?
  rw [arg?_call]
  cases ha : c.arg? 0 with
  | none => rfl
  | some a =>
    have hop : W.Operand st a := hargs a (Call.mem_flatten_of_mem_group (mem_of_mem_head? ha))
    simp only [map_some, bind_some, h.val?_eq hop.1]

lemma ground_target? {t : Ty} (ht : target? st c = some t) : t.isGround := by
  unfold target? at ht
  split at ht
  · next u hu =>
    cases ht
    obtain ⟨a, ha, hu⟩ := bind_eq_some_iff.1 hu
    have hop : W.Operand st a := hargs a (Call.mem_flatten_of_mem_group (mem_of_mem_head? ha))
    simpa [Val.isGround] using h.ground_val? hop hu
  · cases ht

end Copied

section

variable (hR : W.Resolves R R') (hscope : W.Scopes scope scope') (h : W.Tracks s s')
  {defs : List (String × Definition)}
  {ok conjunction : Bool} {d : Definition} {l : LetScope} {n : String}
include hR hscope h

lemma parallel_resolveArgs (hc : At s.store id c) :
    W.Parallel (resolveArgs R scope c) (resolveArgs R' scope' (W.call c)) s s' fun p p' st _ =>
      p' = (p.1.map (·.map W.place), p.2) ∧ ∀ r ∈ p.1.flatten, W.Operand st r := by
  have hlength : (W.call c).groups.length = c.groups.length := by simp [call]
  unfold resolveArgs
  rw [hlength]
  exact parallel_resolveGroups hR hscope h hc _

lemma parallel_resolvePlain (hc : At s.store id c) :
    W.Parallel (resolvePlain R scope id c) (resolvePlain R' scope' (W.place id) (W.call c)) s s'
      fun r r' st _ => r' = W.place r ∧ ∃ groups, At st r { c with groups } := by
  refine .bind (parallel_resolveArgs hR hscope h hc) ?_
  rintro ⟨groups, ok⟩ _ t t' hg ⟨rfl, hargs⟩
  exact (parallel_finish hg.tracks (hc.kept hg.left) hargs).mono fun _ _ _ _ _ ⟨hr, hat⟩ =>
    ⟨hr, groups, hat⟩

omit hR hscope in
lemma parallel_finished (hc : At s.store id c) (groups : List (List Nat)) (ok : Bool)
    (hargs : ∀ a ∈ groups.flatten, W.Operand s.store a) : W.Parallel (finish id c groups ok)
    (finish (W.place id) (W.call c) (groups.map (·.map W.place)) ok) s s' W.Result := by
  refine (parallel_finish h hc hargs).mono ?_
  rintro r _ t t' hg ⟨rfl, hr⟩
  exact ⟨rfl, hr.typed hg.tracks.store⟩

lemma parallel_resolveFold {leading : Bool} {reduce : List Val → Except EvalCause Val}
    (hreduce : ∀ vs v, reduce vs = .ok v → v.isAtom) (hc : At s.store id c) :
    W.Parallel (resolveFold leading reduce R scope id c)
    (resolveFold leading reduce R' scope' (W.place id) (W.call c)) s s' W.Result := by
  have hground {vs : List Val} {v : Val} (hv : reduce vs = .ok v) : v.isGround :=
    Val.closed_isGround.atom (hreduce vs v hv)
  refine .spanOf_bind (.bind (parallel_resolveArgs hR hscope h hc) ?_)
  rintro ⟨groups, ok⟩ _ t t' hg ⟨rfl, hargs⟩
  have hc := hc.kept hg.left
  have hsame : W.Parallel (finish id c groups ok)
    (finish (W.place id) (W.call c) (groups.map (·.map W.place)) ok) t t' W.Result :=
    parallel_finished hg.tracks hc groups ok hargs
  cases groups with
  | nil => exact hsame
  | cons args more =>
    refine .get_bind ?_
    have hvals : knownValues t'.store (args.map W.place) = knownValues t.store args :=
      hg.tracks.store.knownValues_eq fun i hi => (hargs i (by simp [hi])).1
    simp only [hvals, length_map, isEmpty_map, head?_map, getElem?_map]
    generalize knownValues t.store args = vals
    refine .ite Iff.rfl (fun _ => ?_) fun _ => .ite Iff.rfl (fun _ => ?_) fun _ => hsame
    · cases hv : reduce vals with
      | ok v => exact .literal hg.tracks (hground hv)
      | error e => exact hsame
    · cases hv : reduce vals with
      | error e => exact hsame
      | ok v =>
        cases args.head? with
        | none => exact hsame
        | some first =>
          cases args[vals.length - 1]? with
          | none => exact hsame
          | some last =>
            refine .bind (.literal hg.tracks (hground hv)) ?_
            rintro folded _ u u' hg' ⟨rfl, hfolded⟩
            have hrest := parallel_finished hg'.tracks (hc.kept hg'.left)
              ((folded :: args.drop vals.length) :: more) ok fun a ha => ?_
            · simpa using hrest
            · simp only [flatten_cons, cons_append, mem_cons, mem_append] at ha
              rcases ha with rfl | ha | ha
              · exact hfolded.operand
              · exact (hargs a (by simp [mem_of_mem_drop ha])).kept hg'.left
              · exact (hargs a (mem_append_right _ ha)).kept hg'.left

lemma parallel_resolveLogicArgs (hids : ∀ i ∈ ids, W.Operand s.store i)
    (hkept : ∀ i ∈ kept, W.Operand s.store i) :
    W.Parallel (resolveLogicArgs conjunction R scope kept ok ids)
      (resolveLogicArgs conjunction R' scope' (kept.map W.place) ok (ids.map W.place)) s s'
      fun p p' st _ =>
        p' = (p.1.map W.place, p.2) ∧ ∀ r ∈ p.1, W.Operand st r := by
  induction ids generalizing s s' kept ok with
  | nil => exact .pure h ⟨rfl, hkept⟩
  | cons a rest ih =>
    refine .bind (parallel_resolveOrResidual hR hscope h (hids a (by simp))) ?_
    rintro ⟨r, resolved⟩ _ t t' hg ⟨rfl, hr, -⟩
    have hrest := hg.operands fun i hi => hids i (mem_cons_of_mem a hi)
    have hkept := hg.operands hkept
    have hboth : ∀ i ∈ kept ++ [r], W.Operand t.store i := by
      intro i hi
      rcases mem_append.1 hi with hi | hi
      · exact hkept i hi
      · rwa [mem_singleton.1 hi]
    have hmap : kept.map W.place ++ [W.place r] = (kept ++ [r]).map W.place := by simp
    dsimp only
    rw [hmap]
    cases resolved with
    | false => exact ih hg.tracks hrest hboth
    | true =>
      refine .val?_bind ?_
      rw [hg.tracks.store.val?_eq hr.1, isEmpty_map]
      cases t.store.val? r with
      | none => exact ih hg.tracks hrest hboth
      | some v =>
        refine .ite Iff.rfl (fun _ => .ite Iff.rfl (fun _ => .pure hg.tracks ⟨rfl, nofun⟩) fun _ =>
          ?_) fun _ => ?_
        · exact .pure hg.tracks ⟨rfl, hboth⟩
        · exact ih hg.tracks hrest hkept

lemma parallel_resolveLogic (hc : At s.store id c) :
    W.Parallel (resolveLogic conjunction R scope id c)
    (resolveLogic conjunction R' scope' (W.place id) (W.call c)) s s' W.Result := by
  unfold resolveLogic
  rw [group_call]
  have hnone : ∀ i ∈ [], W.Operand s.store i := nofun
  refine .spanOf_bind (.bind (parallel_resolveLogicArgs hR hscope h (hc.group h.store 0) hnone) ?_)
  rintro ⟨kept, decided, ok⟩ _ t t' hg ⟨rfl, hkept⟩
  refine .ite Iff.rfl (fun _ => .literal hg.tracks rfl) fun _ => ?_
  refine .ite (by simp) (fun _ => .literal hg.tracks rfl) fun _ => ?_
  exact parallel_finished hg.tracks (hc.kept hg.left) [kept] ok (by simpa using hkept)

omit hR hscope in
lemma isFirstOrder_builtin {b : Builtin} {c : Callable} (hb : b ≠ .lambda)
    (hc : s.catalog.callable? b.name = some c) : c.isFirstOrder := by
  rw [h.builtins b] at hc
  cases b <;> first | exact absurd rfl hb | (cases hc; rfl)

omit hR hscope in
lemma operand_negated? {inner : Nat} (hr : W.Operand s.store r)
    (hinner : negated? s.store r = some inner) : W.Operand s.store inner := by
  unfold negated? at hinner
  split at hinner
  · next c hc =>
    split at hinner
    · exact (h.store.plain_of hr.1 hc).2 inner
        (Call.mem_flatten_of_mem_group (mem_of_mem_head? hinner))
    · cases hinner
  · cases hinner

lemma parallel_negated {span span' : Span} (hc : At s.store id c) (hr : W.Operand s.store r) :
    W.Parallel (match negated? s.store r, s.catalog.callable? Builtin.ok.name with
      | some inner, some truth => do
        let el ← alloc (.call ⟨truth, [[inner]], none⟩) span
        if ok then R.resolve scope el .void else throw (.unresolved el)
      | _, _ => finish id c [[r]] ok) (match (negated? s.store r).map W.place,
          s.catalog.callable? Builtin.ok.name with
      | some inner, some truth => do
        let el ← alloc (.call ⟨truth, [[inner]], none⟩) span'
        if ok then R'.resolve scope' el .void else throw (.unresolved el)
      | _, _ => finish (W.place id) (W.call c) [[W.place r]] ok) s s' W.Result := by
  have hfinish : W.Parallel (finish id c [[r]] ok) (finish (W.place id) (W.call c) [[W.place r]] ok)
    s s' W.Result := parallel_finished h hc [[r]] ok (by simpa using hr)
  cases hinner : negated? s.store r with
  | none => exact hfinish
  | some inner =>
    cases htruth : s.catalog.callable? Builtin.ok.name with
    | none => exact hfinish
    | some truth =>
      have hfirst := isFirstOrder_builtin h (by decide) htruth
      have hplain : W.Plain s.store (.call ⟨truth, [[inner]], none⟩) :=
        ⟨.inl hfirst, by simpa using operand_negated? h hr hinner⟩
      have hcopy : W.content (.call ⟨truth, [[inner]], none⟩) =
        .call ⟨truth, [[W.place inner]], none⟩ := by
        simp [content, call, W.callable_of_isFirstOrder hfirst]
      refine .bind (.alloc_copy h hplain hcopy) ?_
      rintro el _ t t' hg ⟨rfl, hlt, hel⟩
      have hop : W.Operand t.store el := .of_content hlt hel (by simp)
      exact .ite Iff.rfl (fun _ => hR.operand .void hg.tracks hscope hop) fun _ =>
        .throw_unresolved hg.tracks hop

lemma parallel_resolveNot (hc : At s.store id c) :
    W.Parallel (resolveNot R scope id c) (resolveNot R' scope' (W.place id) (W.call c)) s s'
    W.Result := by
  refine .spanOf_bind (.bind (parallel_needArg h) ?_)
  rintro a _ t t' hg ⟨rfl, ha⟩
  have hc := hc.kept hg.left
  refine .bind (parallel_resolveOrResidual hR hscope hg.tracks (hc.arg? hg.tracks.store ha)) ?_
  rintro ⟨r, ok⟩ _ u u' hg' ⟨rfl, hr, -⟩
  have hc := hc.kept hg'.left
  refine .get_bind ?_
  simp only [hg'.tracks.store.val?_eq hr.1, hg'.tracks.store.negated?_eq hr.1, hg'.tracks.catalog]
  cases u.store.val? r with
  | none => exact parallel_negated hR hscope hg'.tracks hc hr
  | some v =>
    cases ok with
    | true => exact .literal hg'.tracks rfl
    | false => exact parallel_negated hR hscope hg'.tracks hc hr

omit hR hscope h in
lemma result_call (hsig : c.sig.isSome) : (W.call c).typ.result = W.ty c.typ.result := by
  rw [W.typ_call hsig]
  exact Ty.result_rename

lemma parallel_branches (hc : At s.store id c) (hr : W.Operand s.store r) : W.Parallel (do
      let (groups, oks) ← resolveGroups R scope c ((range c.groups.length).drop 1)
      finish id c ([r] :: groups) (ok && oks)) (do
      let (groups, oks) ← resolveGroups R' scope' (W.call c)
        ((range (W.call c).groups.length).drop 1)
      finish (W.place id) (W.call c) ([W.place r] :: groups) (ok && oks)) s s' W.Result := by
  have hlength : (W.call c).groups.length = c.groups.length := by simp [call]
  rw [hlength]
  refine .bind (parallel_resolveGroups hR hscope h hc _) ?_
  rintro ⟨groups, oks⟩ _ t t' hg ⟨rfl, hgroups⟩
  refine parallel_finished hg.tracks (hc.kept hg.left) ([r] :: groups) _ ?_
  simpa using ⟨hr.kept hg.left, by simpa using hgroups⟩

lemma parallel_resolveCond (hc : At s.store id c) :
    W.Parallel (resolveCond R scope id c) (resolveCond R' scope' (W.place id) (W.call c)) s s'
    W.Result := by
  refine .spanOf_bind (.bind (parallel_needArg h) ?_)
  rintro a _ t t' hg ⟨rfl, ha⟩
  have hc := hc.kept hg.left
  refine .bind (parallel_resolveOrResidual hR hscope hg.tracks (hc.arg? hg.tracks.store ha)) ?_
  rintro ⟨r, ok⟩ _ u u' hg' ⟨rfl, hr, -⟩
  have hc := hc.kept hg'.left
  refine .val?_bind ?_
  rw [hg'.tracks.store.val?_eq hr.1]
  cases u.store.val? r with
  | none => exact parallel_branches hR hscope hg'.tracks hc hr
  | some v =>
    cases ok with
    | false => exact parallel_branches hR hscope hg'.tracks hc hr
    | true =>
      simp only [arg?_call]
      cases hbranch : c.arg? (if v.isZero then 2 else 1) with
      | none => exact .literal hg'.tracks rfl
      | some branch =>
        have := hR.operand c.typ.result hg'.tracks hscope (hc.arg? hg'.tracks.store hbranch)
        rwa [← result_call hc.sig] at this

/-- The declarations of a `let` in the second session. -/
def letScope (W : Copying) (l : LetScope) : LetScope :=
  { defs := W.locals l.defs, decls := l.decls.map W.place, resolved := l.resolved,
    known := l.known }

omit hR hscope h in
lemma define_locals : Frame.define (W.locals defs) n (W.definition d) =
    (Frame.define defs n d).map W.locals := by
  have hany : (W.locals defs).any (fun p => p.1 == n) = defs.any fun p => p.1 == n := by
    simp [locals, Function.comp_def]
  unfold Frame.define
  simp only [hany]
  split
  · rfl
  · simp [locals, Except.map]

omit hR hscope in
lemma parallel_define (hdefs : W.Locals defs) (hn : W.operator n = none) (hd : W.Data d) :
    W.Parallel (ofExcept (Frame.define defs n d))
    (ofExcept (Frame.define (W.locals defs) n (W.definition d))) s s'
      fun next next' _ _ => next' = W.locals next ∧ W.Locals next := by
  refine .ofExcept h ?_
  rw [define_locals]
  cases hnext : Frame.define defs n d with
  | error e => exact ⟨rfl, fun el hel => absurd hel ((final_of_define hnext).2 el)⟩
  | ok next =>
    unfold Frame.define at hnext
    split at hnext
    · cases hnext
    · cases hnext
      refine ⟨rfl, ⟨fun p hp => ?_, fun p hp => ?_⟩⟩
      · rcases mem_append.1 hp with hp | hp
        · exact hdefs.name p hp
        · cases mem_singleton.1 hp
          exact hn
      · rcases mem_append.1 hp with hp | hp
        · exact hdefs.plain p hp
        · cases mem_singleton.1 hp
          exact hd

omit hR hscope in
lemma Tracks.typeOf_of_val? {v : Val} (hliteral : W.literal) (hr : W.Operand s.store r)
    (hv : s.store.val? r = some v) : s.typeOf r = v.typeOf := by
  have hground := h.store.ground_val? hr hv
  have hvars : v.typeOf.outerVars = [] := List.isEmpty_iff.1 (Val.ground_typeOf v hground)
  rw [Session.typeOf, h.store.typeOf_of_val? hliteral hr hv,
    h.subst.left.apply_of_unbound (by simp [hvars])]
  exact (Val.typeOf_mem Ty.Consistent.closed v hground).settled_eq

omit hR hscope in
lemma definition_declared (hr : W.Operand s.store r) (htyped : ok → W.Typed s.store s'.store r) :
    s'.declared (W.place r) ok = W.definition (s.declared r ok) ∧ W.Data (s.declared r ok) := by
  obtain ⟨hcallable, hcallable'⟩ := h.store.callable?_of_operand hr
  cases ok with
  | false => exact ⟨rfl, rfl, nofun, nofun⟩
  | true =>
    refine ⟨?_, hcallable, fun v hv => h.store.ground_val? hr hv, fun hliteral v hv =>
      h.typeOf_of_val? hliteral hr hv⟩
    simp [Session.declared, definition, hcallable, hcallable', h.store.val?_eq hr.1,
      h.typeOf_eq (htyped rfl)]

lemma parallel_resolveLetDecl {decl : Nat} (hl : W.Locals l.defs) (hdecl : W.Operand s.store decl)
    (hdecls : ∀ d ∈ l.decls, W.Operand s.store d) : W.Parallel (resolveLetDecl R scope l decl)
    (resolveLetDecl R' scope' (W.letScope l) (W.place decl)) s s'
      fun next next' st _ => next' = W.letScope next ∧ W.Locals next.defs ∧ ∀ d ∈ next.decls,
      W.Operand st d := by
  refine .bind (parallel_declArg h hdecl.1) ?_
  rintro ⟨name, arg⟩ _ t t' hg ⟨rfl, hc⟩
  have hplain := hg.tracks.store.plain_of (hdecl.kept hg.left).1 hc
  refine .bind (parallel_resolveOrResidual hR (hscope.locals hl) hg.tracks (hplain.2 arg (by simp)))
    ?_
  rintro ⟨r, ok⟩ _ u u' hg' ⟨rfl, hr, htyped⟩
  refine .get_bind ?_
  have hdefine : W.Parallel (ofExcept (Frame.define l.defs name (u.declared r ok)))
      (ofExcept (Frame.define (W.locals l.defs) name (u'.declared (W.place r) ok))) u u'
      fun next next' _ _ => next' = W.locals next ∧ W.Locals next := by
    obtain ⟨hd, hdata⟩ := definition_declared hg'.tracks hr htyped
    rw [hd]
    exact parallel_define hg'.tracks hl hplain.1 hdata
  refine .bind hdefine ?_
  rintro defs _ v v' hg'' ⟨rfl, hdefs⟩
  have hgrown := (hg.trans hg').trans hg''
  simp only [hg'.tracks.store.val?_eq hr.1]
  have hadd {w w' : Session} {next : Nat} (hw : W.Grown v v' w w')
    (hnext : W.Operand w.store next) :
      W.Parallel (pure ⟨defs, l.decls ++ [next], l.resolved && ok, l.known &&
      (!ok || (u.store.val? r).isSome)⟩ : Run LetScope)
        (pure ⟨W.locals defs, l.decls.map W.place ++ [W.place next], l.resolved && ok,
          l.known && (!ok || (u.store.val? r).isSome)⟩ : Run LetScope) w w'
        fun next next' st _ => next' = W.letScope next ∧ W.Locals next.defs ∧ ∀ d ∈ next.decls,
        W.Operand st d := by
    refine .pure hw.tracks ⟨by simp [letScope], hdefs, fun d hd => ?_⟩
    rcases mem_append.1 hd with hd | hd
    · exact (hdecls d hd).kept (hgrown.trans hw).left
    · rwa [mem_singleton.1 hd]
  refine .ite W.mono.injective.eq_iff (fun _ => .pure_bind ?_) fun _ => .spanOf_bind ?_
  · exact hadd (.refl hg''.tracks) (hdecl.kept hgrown.left)
  · have hnext : W.Plain v.store (.decl name [r]) := ⟨hplain.1, by simpa using hr.kept hg''.left⟩
    refine .bind (.alloc hg''.tracks hnext) ?_
    rintro next _ w w' hw ⟨rfl, hlt, hc⟩
    exact hadd hw (.of_content hlt hc nofun)

lemma parallel_resolveLetDecls (hl : W.Locals l.defs)
    (hdecls : ∀ d ∈ decls, W.Operand s.store d) (hdone : ∀ d ∈ l.decls, W.Operand s.store d) :
    W.Parallel (decls.foldlM (resolveLetDecl R scope) l)
      ((decls.map W.place).foldlM (resolveLetDecl R' scope') (W.letScope l)) s s'
      fun next next' st _ => next' = W.letScope next ∧ W.Locals next.defs ∧ ∀ d ∈ next.decls,
      W.Operand st d := by
  induction decls generalizing s s' l with
  | nil => exact .pure h ⟨rfl, hl, hdone⟩
  | cons decl decls ih =>
    refine .bind (parallel_resolveLetDecl hR hscope h hl (hdecls decl (by simp)) hdone) ?_
    rintro next _ t t' hg ⟨rfl, hnext, hdone⟩
    exact ih hg.tracks hnext (hg.operands fun d hd => hdecls d (by simp [hd])) hdone

lemma parallel_resolveLetBody {result : Ty} (hids : ∀ i ∈ ids, W.Operand s.store i) :
    W.Parallel (resolveLetBody R scope result ids)
    (resolveLetBody R' scope' (W.ty result) (ids.map W.place)) s s'
      fun p p' st _ => p' = (p.1.map W.place, p.2) ∧ ∀ r ∈ p.1, W.Operand st r := by
  induction ids generalizing s s' with
  | nil => exact .pure h ⟨rfl, nofun⟩
  | cons id ids ih =>
    have hhint : (if (ids.map W.place).isEmpty then W.ty result else .void) =
      W.ty (if ids.isEmpty then result else .void) := by
      rw [isEmpty_map]
      split <;> rfl
    simp only [map_cons, resolveLetBody, hhint]
    refine .bind (parallel_resolveOrResidual hR hscope h (hids id (by simp))) ?_
    rintro ⟨r, ok⟩ _ t t' hg ⟨rfl, hr, -⟩
    refine .bind (ih hg.tracks (hg.operands fun i hi => hids i (by simp [hi]))) ?_
    rintro ⟨rs, oks⟩ _ u u' hg' ⟨rfl, hrs⟩
    exact .pure hg'.tracks ⟨rfl, forall_mem_cons.2 ⟨hr.kept hg'.left, hrs⟩⟩

lemma parallel_resolveLet (hc : At s.store id c) :
    W.Parallel (resolveLet R scope id c) (resolveLet R' scope' (W.place id) (W.call c)) s s'
    W.Result := by
  unfold resolveLet
  rw [group_call, group_call, result_call hc.sig]
  refine .spanOf_bind (.bind (parallel_resolveLetDecls hR hscope h (l := {}) ⟨nofun,
    nofun⟩ (hc.group h.store 0) nofun) ?_)
  rintro l _ t t' hg ⟨rfl, hl, hdecls⟩
  have hc := hc.kept hg.left
  refine .bind (parallel_resolveLetBody hR (hscope.locals hl) hg.tracks
    (hc.group hg.tracks.store 1)) ?_
  rintro ⟨tail, ok⟩ _ u u' hg' ⟨rfl, htail⟩
  refine .get_bind ?_
  have hlast : (tail.map W.place).getLast?.bind u'.store.val? =
    tail.getLast?.bind u.store.val? := by
    rw [getLast?_map]
    cases hr : tail.getLast? with
    | none => rfl
    | some r => exact hg'.tracks.store.val?_eq (htail r (mem_of_getLast? hr)).1
  have hfinish := parallel_finished hg'.tracks (hc.kept hg'.left) [l.decls, tail] (l.resolved && ok)
    fun a ha => ?_
  · simp only [hlast, letScope]
    split
    · next v hv hknown =>
      obtain ⟨r, hr, hv⟩ := bind_eq_some_iff.1 hv
      exact .literal hg'.tracks (hg'.tracks.store.ground_val? (htail r (mem_of_getLast? hr)) hv)
    · exact hfinish
  · simp only [flatten_cons, flatten_nil, append_nil, mem_append] at ha
    exact ha.elim (hg'.operands hdecls a) (htail a)

lemma parallel_resolveConstruct (hc : At s.store id c) :
    W.Parallel (resolveConstruct R scope id c) (resolveConstruct R' scope' (W.place id) (W.call c))
    s s' W.Result := by
  refine .spanOf_bind (.bind (parallel_resolvePlain hR hscope h hc) ?_)
  rintro next _ t t' hg ⟨rfl, groups, hnext⟩
  refine .get_bind ?_
  have hst := hg.tracks.store
  have hsame {u u' : Session} (hg' : W.Grown t t' u u') : W.Parallel
    (pure next : Run Nat) (pure (W.place next)) u u' W.Result :=
    .pure hg'.tracks ⟨rfl, (hnext.kept hg'.left).typed hg'.tracks.store⟩
  dsimp only
  rw [hst.content_place hnext.lt_size hnext.content, hnext.content]
  simp only [content, hst.target?_eq (hnext.args hst)]
  cases ht : target? t.store { c with groups } with
  | none => exact hsame (.refl hg.tracks)
  | some typ =>
    have hground : typ.isGround := hst.ground_target? (hnext.args hst) ht
    have hunify := hg.tracks.subst.parallel_unify ({ c with groups } : Call).typ.result typ
    rw [Ty.rename_of_isGround hground, ← ty, ← result_call hnext.sig] at hunify
    refine .bind (.solve hg.tracks hunify) fun _ _ u u' hg' _ => ?_
    rw [group_call, hst.mapM_val?_eq fun i hi => (hnext.group hst 1 i hi).1]
    cases hvals : (({ c with groups } : Call).group 1).mapM t.store.val? with
    | none => exact hsame hg'
    | some vals =>
      have hvals : ∀ v ∈ vals, v.isGround := by
        intro v hv
        obtain ⟨i, hi, hv⟩ := exists_of_mem_mapM hvals v hv
        exact hst.ground_val? (hnext.group hst 1 i hi) hv
      cases hv : Val.construct typ vals with
      | error e =>
        simp only [map_some, hv]
        exact hsame hg'
      | ok v =>
        simp only [map_some, hv]
        exact .literal hg'.tracks (Val.closed_isGround.construct hvals hv)

lemma parallel_resolve (hc : At s.store id c) :
    W.Parallel (resolve R scope id c) (resolve R' scope' (W.place id) (W.call c)) s s'
    W.Result := by
  have hplain : W.Parallel (resolvePlain R scope id c)
    (resolvePlain R' scope' (W.place id) (W.call c)) s s' W.Result := by
    refine (parallel_resolvePlain hR hscope h hc).mono ?_
    rintro r _ t t' hg ⟨rfl, groups, hr⟩
    exact ⟨rfl, hr.typed hg.tracks.store⟩
  have hfirst := (h.store.plain_of hc.lt_size hc.content).1
  unfold resolve
  rw [show (W.call c).callable.op = c.callable.op from W.op_callable c.callable]
  cases hop : c.callable.op with
  | builtin b =>
    cases b with
    | and | or => exact parallel_resolveLogic hR hscope h hc
    | not => exact parallel_resolveNot hR hscope h hc
    | ok => exact parallel_resolveFold hR hscope h Reduce.atom_truth hc
    | add => exact parallel_resolveFold hR hscope h Reduce.atom_sum hc
    | cat => exact parallel_resolveFold hR hscope h Reduce.atom_concat hc
    | eq => exact parallel_resolveFold hR hscope h Reduce.atom_equality hc
    | lt => exact parallel_resolveFold hR hscope h Reduce.atom_order hc
    | cond => exact parallel_resolveCond hR hscope h hc
    | scope => exact parallel_resolveLet hR hscope h hc
    | lambda => simp [Callable.isFirstOrder, hop] at hfirst
    | construct => exact parallel_resolveConstruct hR hscope h hc
    | fail | append | merge => exact hplain
  | closure | apply | collect => exact hplain

end

end Copying

end Resolvent
