import Resolvent.Proofs.Independence.Element

/-!
# Values in two sessions at once

A resolved operand has the value that its copy has, or evaluating fails for both for the same
reason.
-/

namespace Resolvent

open Run Session Operator List

namespace Copying

variable {W : Copying} {s s' : Session} {st st' : Store} {n id : Nat} {scope scope' : Scope}
  {R R' : Steps} {c : Call} {span span' : Span} {ids : List Nat}

def Value (v v' : Val) (_ _ : Store) : Prop := v' = v ∧ v.isGround

/-- An operand to evaluate: nothing below it waits to be resolved, and no way down from it visits
more than `n` elements. -/
structure Ready (W : Copying) (n : Nat) (st : Store) (id : Nat) : Prop where
  operand : W.Operand st id
  complete : st.Complete id
  shallow : st.Shallow ⊤ n id

namespace Ready

lemma kept (h : W.Ready n st id) (hk : st.Kept st') : W.Ready n st' id :=
  ⟨h.operand.kept hk, h.complete.kept hk, h.shallow.kept hk⟩

lemma mono {m : Nat} (h : W.Ready m st id) (hmn : m ≤ n) : W.Ready n st id :=
  ⟨h.operand, h.complete, h.shallow.mono hmn⟩

lemma child {e : Content} {x : Nat} (h : W.Ready (n + 1) st id) (hc : st.content id = e)
    (hx : x ∈ e.visible) (hop : W.Operand st x) : W.Ready n st x := by
  subst hc
  exact ⟨hop, (Store.complete_iff.1 h.complete).2 x hx,
    h.shallow.child rfl (Content.visible_subset _ hx)⟩

end Ready

lemma Calls.isLambda_eq_false {callable : Callable} (h : Calls callable) :
    callable.op.isLambda = false := by
  unfold Calls Callable.isFirstOrder at h
  unfold isLambda
  split <;> simp_all

/-- The steps evaluate operands and their copies alike, whatever is expected of them. -/
def Evaluates (W : Copying) (n : Nat) (R R' : Steps) : Prop :=
  ∀ {s s' : Session} {scope scope' : Scope} {id : Nat} (hint hint' : Ty), W.Tracks s s' →
    W.Scopes scope scope' → W.Ready n s.store id →
    W.Parallel (R.eval scope id hint) (R'.eval scope' (W.place id) hint') s s' Value

/-! ## Calls -/

section

variable (hR : W.Evaluates n R R') (hscope : W.Scopes scope scope') (h : W.Tracks s s')
  {hint' hint : Ty}
include hR hscope h

lemma parallel_evalAll (hids : ∀ i ∈ ids, W.Ready n s.store i) :
    W.Parallel (evalAll R scope ids) (evalAll R' scope' (ids.map W.place)) s s' fun vs vs' _ _ =>
      vs' = vs ∧ ∀ v ∈ vs, v.isGround := by
  induction ids generalizing s s' with
  | nil => exact .pure h ⟨rfl, by simp⟩
  | cons id ids ih =>
    refine .bind (hR _ _ h hscope (hids id (by simp))) ?_
    rintro _ v t t' hg ⟨rfl, hv⟩
    refine .bind (ih hg.tracks fun i hi => (hids i (by simp [hi])).kept hg.left) ?_
    rintro _ vs u u' hg' ⟨rfl, hvs⟩
    exact .pure hg'.tracks ⟨rfl, forall_mem_cons.2 ⟨hv, hvs⟩⟩

lemma parallel_evalGroups {groups : List (List Nat)}
    (hargs : ∀ a ∈ groups.flatten, W.Ready n s.store a) :
    W.Parallel (evalGroups R scope groups) (evalGroups R' scope' (groups.map (·.map W.place))) s s'
    fun vss vss' _ _ =>
      vss' = vss ∧ ∀ vs ∈ vss, ∀ v ∈ vs, v.isGround := by
  induction groups generalizing s s' with
  | nil => exact .pure h ⟨rfl, nofun⟩
  | cons g gs ih =>
    refine .bind (parallel_evalAll hR hscope h fun a ha => hargs a (by simp [ha])) ?_
    rintro _ vs t t' hg ⟨rfl, hvs⟩
    refine .bind (ih hg.tracks fun a ha => (hargs a (mem_append_right g ha)).kept hg.left) ?_
    rintro _ vss u u' hg' ⟨rfl, hvss⟩
    exact .pure hg'.tracks ⟨rfl, forall_mem_cons.2 ⟨hvs, hvss⟩⟩

lemma parallel_evalLast {last : Val} (hlast : last.isGround)
    (hids : ∀ i ∈ ids, W.Ready n s.store i) :
    W.Parallel (evalLast R scope hint last ids) (evalLast R' scope' hint' last (ids.map W.place)) s
    s' Value := by
  induction ids generalizing s s' last with
  | nil => exact .pure h ⟨rfl, hlast⟩
  | cons id ids ih =>
    refine .bind (hR _ _ h hscope (hids id (by simp))) ?_
    rintro _ v t t' hg ⟨rfl, hv⟩
    exact ih hg.tracks hv fun i hi => (hids i (by simp [hi])).kept hg.left

lemma parallel_evalLogic {conjunction : Bool} (hids : ∀ i ∈ ids, W.Ready n s.store i) :
    W.Parallel (evalLogic conjunction R scope ids)
    (evalLogic conjunction R' scope' (ids.map W.place)) s s' Value := by
  induction ids generalizing s s' with
  | nil => exact .pure h ⟨rfl, rfl⟩
  | cons id ids ih =>
    refine .bind (hR _ _ h hscope (hids id (by simp))) ?_
    rintro _ v t t' hg ⟨rfl, -⟩
    refine .ite Iff.rfl (fun _ => .pure hg.tracks ⟨rfl, rfl⟩) fun _ => ?_
    exact ih hg.tracks fun i hi => (hids i (by simp [hi])).kept hg.left

section

variable (hargs : ∀ a ∈ c.groups.flatten, W.Ready n s.store a)
include hargs

omit hscope h hR in
lemma ready_arg? {i a : Nat} (ha : c.arg? i = some a) : W.Ready n s.store a :=
  hargs a (c.mem_flatten_of_mem_group (mem_of_mem_head? ha))

lemma parallel_evalCond :
    W.Parallel (evalCond R scope c hint) (evalCond R' scope' (W.call c) hint') s s' Value := by
  refine .bind (parallel_needArg h) ?_
  rintro cond _ t t' hg ⟨rfl, hcond⟩
  refine .bind (hR _ _ hg.tracks hscope ((ready_arg? hargs hcond).kept hg.left)) ?_
  rintro _ v u u' hg' ⟨rfl, -⟩
  rw [arg?_call]
  cases hbranch : c.arg? (if v.isZero then 2 else 1) with
  | none => exact .pure hg'.tracks ⟨rfl, rfl⟩
  | some branch => exact hR _ _ hg'.tracks hscope ((ready_arg? hargs hbranch).kept
      (hg.trans hg').left)

end

lemma parallel_evalDecls {defs : List (String × Definition)} (hdefs : W.Locals defs)
    (hids : ∀ i ∈ ids, W.Ready n s.store i) :
    W.Parallel (evalDecls R scope defs ids) (evalDecls R' scope' (W.locals defs) (ids.map W.place))
    s s' fun next next' _ _ =>
      next' = W.locals next ∧ W.Locals next := by
  induction ids generalizing s s' defs with
  | nil => exact .pure h ⟨rfl, hdefs⟩
  | cons decl decls ih =>
    have hdecl := hids decl (by simp)
    refine .bind (parallel_declArg h hdecl.operand.1) ?_
    rintro ⟨name, arg⟩ _ t t' hg ⟨rfl, hc⟩
    replace hdecl := hdecl.kept hg.left
    obtain ⟨hname, harg⟩ := hg.tracks.store.plain_of hdecl.operand.1 hc
    have hready : W.Ready n t.store arg := by
      obtain ⟨m, rfl⟩ := Nat.exists_eq_add_one.2 hdecl.shallow.pos
      exact (hdecl.child hc (by simp [Content.visible, Content.children]) (harg arg (by simp))).mono
        (Nat.le_succ m)
    refine .bind (hR _ _ hg.tracks (hscope.locals hdefs) hready) ?_
    rintro _ v u u' hg' ⟨rfl, hv⟩
    have hdefine := parallel_define hg'.tracks hdefs hname (W.data_ofVal hv)
    rw [W.definition_ofVal hv] at hdefine
    refine .bind hdefine ?_
    rintro next _ w w' hg'' ⟨rfl, hnext⟩
    exact ih hg''.tracks hnext fun i hi =>
      (hids i (by simp [hi])).kept ((hg.trans hg').trans hg'').left

lemma parallel_evalLet (hargs : ∀ a ∈ c.groups.flatten, W.Ready n s.store a) :
    W.Parallel (evalLet R scope c hint) (evalLet R' scope' (W.call c) hint') s s' Value := by
  unfold evalLet
  rw [group_call, group_call]
  refine .bind (parallel_evalDecls hR hscope h ⟨nofun, nofun⟩ fun a ha =>
    hargs a (c.mem_flatten_of_mem_group ha)) ?_
  rintro defs _ t t' hg ⟨rfl, hdefs⟩
  refine parallel_evalLast hR (hscope.locals hdefs) hg.tracks rfl fun a ha => ?_
  exact (hargs a (c.mem_flatten_of_mem_group ha)).kept hg.left

lemma parallel_evalApply (hargs : ∀ a ∈ c.groups.flatten, W.Ready n s.store a) :
    W.Parallel (evalApply R scope id c hint) (evalApply R' scope' (W.place id) (W.call c) hint') s
    s' Value := by
  refine .bind (parallel_needArg h) ?_
  rintro head _ t t' hg ⟨rfl, hhead⟩
  refine .bind (hR _ _ hg.tracks hscope ((ready_arg? hargs hhead).kept hg.left)) ?_
  rintro _ v u u' hg' ⟨rfl, hv⟩
  cases v with
  | fn f => cases hv
  | _ => exact .spanOf_bind (.throw_bare hg'.tracks rfl nofun)

omit hR hscope in
lemma parallel_reduced {x : Except EvalCause Val} (hx : ∀ v, x = .ok v → v.isGround) :
    W.Parallel (reduced x span) (reduced x span') s s' Value := by
  cases x with
  | error e => exact .throw_bare h rfl nofun
  | ok v => exact .pure h ⟨rfl, hx v rfl⟩

section

variable (hargs : ∀ a ∈ c.groups.flatten, W.Ready n s.store a)
include hargs

lemma parallel_evalReduced {reduce : List (List Val) → Except EvalCause Val}
    (hreduce : ∀ vss v, (∀ vs ∈ vss, ∀ v ∈ vs, v.isGround) → reduce vss = .ok v → v.isGround) :
    W.Parallel (do reduced (reduce (← evalGroups R scope c.groups)) span)
      (do reduced (reduce (← evalGroups R' scope' (W.call c).groups)) span') s s' Value := by
  refine .bind (parallel_evalGroups hR hscope h hargs) ?_
  rintro _ vss t t' hg ⟨rfl, hvss⟩
  exact parallel_reduced hg.tracks fun v hv => hreduce vss v hvss hv

lemma parallel_evalBuiltin {b : Builtin} (hb : b ≠ .lambda) :
    W.Parallel (evalBuiltin b R scope id c hint)
    (evalBuiltin b R' scope' (W.place id) (W.call c) hint') s s' Value := by
  have hgroup (i : Nat) : ∀ a ∈ c.group i, W.Ready n s.store a :=
    fun a ha => hargs a (c.mem_flatten_of_mem_group ha)
  have hatom {reduce : List Val → Except EvalCause Val} (hreduce : ∀ vs v, reduce vs = .ok v →
    v.isAtom) (span span' : Span) :
      W.Parallel (do reduced (reduce (← evalGroups R scope c.groups).flatten) span)
        (do reduced (reduce (← evalGroups R' scope' (W.call c).groups).flatten) span') s s' Value :=
    parallel_evalReduced hR hscope h hargs fun vss v _ hv =>
      Val.closed_isGround.atom (hreduce _ v hv)
  have hfail (vs : List Val) (v : Val) (hv : (.error (.failed vs) : Except EvalCause Val) = .ok v) :
    v.isAtom := nomatch hv
  refine .spanOf_bind ?_
  cases b with
  | and | or =>
    rw [group_call]
    exact parallel_evalLogic hR hscope h (hgroup 0)
  | not | ok =>
    refine .bind (parallel_needArg h) ?_
    rintro a _ t t' hg ⟨rfl, ha⟩
    refine .bind (hR _ _ hg.tracks hscope ((ready_arg? hargs ha).kept hg.left)) ?_
    rintro _ v u u' hg' ⟨rfl, -⟩
    exact .pure hg'.tracks ⟨rfl, rfl⟩
  | cond => exact parallel_evalCond hR hscope h hargs
  | fail => exact hatom hfail _ _
  | add => exact hatom Reduce.atom_sum _ _
  | cat => exact hatom Reduce.atom_concat _ _
  | eq => exact hatom Reduce.atom_equality _ _
  | lt => exact hatom Reduce.atom_order _ _
  | append => exact parallel_evalReduced hR hscope h hargs fun vss v hvss hv =>
    Val.closed_isGround.append hvss hv
  | merge =>
    refine parallel_evalReduced hR hscope h hargs fun vss v hvss
      (hv : Reduce.merge vss.flatten = .ok v) => ?_
    refine Val.closed_isGround.merge (fun w hw => ?_) hv
    obtain ⟨vs, hvs, hw⟩ := mem_flatten.1 hw
    exact hvss vs hvs w hw
  | scope => exact parallel_evalLet hR hscope h hargs
  | lambda => exact absurd rfl hb
  | construct => exact parallel_evalReduced hR hscope h hargs fun vss v hvss hv =>
    Val.closed_isGround.construct_groups hvss hv

lemma parallel_eval (hcallable : Calls c.callable) : W.Parallel (Operator.eval R scope id c hint)
    (Operator.eval R' scope' (W.place id) (W.call c) hint') s s' Value := by
  unfold Operator.eval
  rw [show (W.call c).callable.op = c.callable.op from W.op_callable _]
  cases hop : c.callable.op with
  | builtin b =>
    refine parallel_evalBuiltin hR hscope h hargs ?_
    rintro rfl
    simp [Calls, Callable.isFirstOrder, hop] at hcallable
  | closure => simp [Calls, Callable.isFirstOrder, hop] at hcallable
  | apply => exact parallel_evalApply hR hscope h hargs
  | collect =>
    refine .bind (parallel_evalGroups hR hscope h hargs) ?_
    rintro _ vss t t' hg ⟨rfl, hvss⟩
    refine .pure hg.tracks ⟨rfl, ?_⟩
    simpa [Val.isGround] using hvss

end

/-! ## Elements -/

omit hR hscope in
lemma parallel_value {d : Definition} (hd : W.Data d) (span span' : Span) :
    W.Parallel (match d.val, d.callable with
      | some v, _ => pure v
      | none, some c => pure (.fn c)
      | none, none => throw (.unevaluable span) : Run Val)
    (match (W.definition d).val, (W.definition d).callable with
      | some v, _ => pure v
      | none, some c => pure (.fn c)
      | none, none => throw (.unevaluable span')) s s' Value := by
  rw [val_definition, callable_definition, hd.callable]
  cases hval : d.val with
  | none => exact .throw_bare h rfl (by simp)
  | some v => exact .pure h ⟨rfl, hd.ground v hval⟩

omit hR in
lemma parallel_evalName {name : String} {d : Option Definition} (hid : W.Operand s.store id)
    (hc : s.store.content id = .name name d) :
    W.Parallel (evalContent R scope id hint) (evalContent R' scope' (W.place id) hint') s
    s' Value := by
  have hplain := h.store.plain_of hid.1 hc
  rw [Plain, hid.2 name d hc] at hplain
  refine .get_bind ?_
  rw [h.store.content_place hid.1 hc, hc]
  dsimp only [content]
  have hfilter : (d.map W.definition).filter (·.isKnown) =
    (d.filter (·.isKnown)).map W.definition := by
    cases d with
    | none => rfl
    | some d => cases hknown : d.isKnown <;> simp [Option.filter]
  rw [hfilter]
  cases hknown : d.filter (·.isKnown) with
  | some known => exact .pure_bind (parallel_value h
      (hplain known (Option.filter_eq_some_iff.1 hknown).1) _ _)
  | none =>
    refine .bind (hscope.parallel_lookup h (hid.2 name d hc)) ?_
    rintro found _ t t' hg ⟨rfl, hfound⟩
    cases found with
    | none => exact .throw_bare hg.tracks rfl (by simp)
    | some known => exact .pure_bind (parallel_value hg.tracks (hfound known rfl) _ _)

lemma parallel_evalContent (hid : W.Ready (n + 1) s.store id) :
    W.Parallel (evalContent R scope id hint) (evalContent R' scope' (W.place id) hint') s
    s' Value := by
  have hplain := h.store.plain id hid.operand.1
  have hcopy := h.store.content_eq id hid.operand.1
  have hresolved := hid.complete.isResolved
  cases hc : s.store.content id with
  | name name d => exact parallel_evalName hscope h hid.operand hc
  | literal v =>
    rw [hc] at hplain hcopy
    refine .get_bind ?_
    rw [hc, hcopy]
    cases v with
    | typ t =>
      refine .bind (hscope.parallel_refsIn h hplain) ?_
      rintro _ r u u' hg ⟨rfl, hr⟩
      cases r with
      | none => exact .throw_bare hg.tracks rfl nofun
      | some t => exact .pure hg.tracks ⟨rfl, hr t rfl⟩
    | _ => exact .pure h ⟨rfl, hplain⟩
  | tag name el =>
    rw [hc] at hplain hcopy
    refine .get_bind ?_
    rw [hc, hcopy]
    cases el with
    | none => exact .pure h ⟨rfl, rfl⟩
    | some el => exact hR _ _ h hscope (hid.child hc (by simp [Content.visible, Content.children])
        (hplain el rfl))
  | decl name args =>
    rw [hc] at hplain hcopy
    refine .get_bind ?_
    rw [hc, hcopy]
    dsimp only [content]
    rw [getLast?_map]
    cases hlast : args.getLast? with
    | none => exact .pure h ⟨rfl, rfl⟩
    | some last =>
      have hmem := mem_of_getLast? hlast
      exact hR _ _ h hscope (hid.child hc hmem (hplain.2 last hmem))
  | expr items =>
    rw [hc] at hresolved
    cases hresolved
  | call c =>
    rw [hc] at hplain hcopy
    refine .get_bind ?_
    rw [hc, hcopy]
    have hvisible : (Content.call c).visible = c.groups.flatten :=
      if_neg (by simp [Calls.isLambda_eq_false hplain.1])
    have hargs : ∀ a ∈ c.groups.flatten, W.Ready n s.store a :=
      fun a ha => hid.child hc (hvisible ▸ ha) (hplain.2 a ha)
    refine .bind (parallel_instantiate h hid.operand.1 hc) ?_
    rintro ⟨next, c'⟩ _ t t' hg ⟨rfl, hc', hgroups⟩
    refine parallel_eval hR hscope hg.tracks (fun a ha => ?_)
      (hg.tracks.store.plain_of hc'.lt_size hc'.content).1
    exact (hargs a (hgroups ▸ ha)).kept hg.left

omit hR hscope h in
lemma parallel_evalStep_of
    (hcontent : W.Parallel (evalContent R scope id hint) (evalContent R' scope' (W.place id) hint')
    s s' Value) :
    W.Parallel (evalStep R scope id hint) (evalStep R' scope' (W.place id) hint') s s' Value := by
  refine .attempt_bind hcontent fun r r' t t' hg hr => ?_
  rcases r with e | v <;> rcases r' with e' | v'
  · by_cases hel : ∃ el, e = .unresolved el
    · obtain ⟨el, rfl⟩ := hel
      obtain ⟨rfl, -⟩ := hr.2 el rfl
      exact .spanOf_bind (.throw_bare hg.tracks rfl nofun)
    · have hne (el : Nat) : e ≠ .unresolved el := fun heq => hel ⟨el, heq⟩
      have hne' := Failure.ne_unresolved_of_bare_eq hr.1 hne
      split
      · next el heq => exact absurd (Except.error.inj heq) (hne el)
      · next heq =>
        cases heq
        exact .throw hg.tracks hr
      · next heq => cases heq
  · exact hr.elim
  · exact hr.elim
  · exact .pure hg.tracks hr

lemma parallel_evalStep (hid : W.Ready (n + 1) s.store id) :
    W.Parallel (evalStep R scope id hint) (evalStep R' scope' (W.place id) hint') s s' Value :=
  parallel_evalStep_of (parallel_evalContent hR hscope h hid)

end

/-! ## The recursion -/

lemma evaluates_recursive {fuel fuel' : Nat} (hfuel : n ≤ fuel) (hfuel' : n ≤ fuel') :
    W.Evaluates n ⟨resolveN fuel, evalN fuel, evalCallN fuel⟩ ⟨resolveN fuel', evalN fuel',
    evalCallN fuel'⟩ := by
  induction n generalizing fuel fuel' with
  | zero => exact fun _ _ _ _ hid => hid.shallow.elim
  | succ n ih =>
    obtain ⟨fuel, rfl⟩ := Nat.exists_eq_add_one.2 (Nat.lt_of_lt_of_le n.succ_pos hfuel)
    obtain ⟨fuel', rfl⟩ := Nat.exists_eq_add_one.2 (Nat.lt_of_lt_of_le n.succ_pos hfuel')
    intro s s' scope scope' id hint hint' h hscope hid
    exact parallel_evalStep (ih (Nat.le_of_succ_le_succ hfuel) (Nat.le_of_succ_le_succ hfuel'))
      hscope h hid

lemma parallel_realize (h : W.Tracks s s') (hid : W.Typed s.store s'.store id) :
    W.Parallel (realize id) (realize (W.place id)) s s' fun t t' _ _ => t = t' := by
  refine .typeOf_bind (.spanOf_bind ?_)
  rw [h.typeOf_eq hid]
  exact .solve h (h.subst.parallel_realize _)

lemma Parallel.and_keeps {α α' : Type} {m : Run α} {m' : Run α'} {P : α → α' → Store → Store → Prop}
    {Q : α → Store → Prop} (h : W.Parallel m m' s s' P) (hm : Keeps m s Q) :
    W.Parallel m m' s s' fun a a' st st' => P a a' st st' ∧ Q a st ∧ st.Founded := by
  obtain ⟨hgrown, hreports⟩ := hm
  refine ⟨h.1, ?_⟩
  have hends := h.2
  unfold Ends at hends ⊢
  split at hends
  · next hr hr' =>
    rw [hr] at hreports
    exact ⟨hends, hreports, hgrown.orderly.founded⟩
  · exact hends
  · exact hends.elim

lemma parallel_run (h : W.Tracks s s') (hscope : W.Scopes scope scope') (hs : s.Orderly)
    (hst' : s'.store.Founded) (hid : W.Operand s.store id) (hint : Ty) :
    W.Parallel (run scope id hint) (run scope' (W.place id) (W.ty hint)) s s' Value := by
  refine .bind ((parallel_resolve_operand h hscope hs.founded hst' hid hint).and_keeps
    (keeps_resolve hs hid.1)) ?_
  rintro r _ t t' hg ⟨⟨rfl, hr⟩, hcomplete, hfounded⟩
  refine .bind (parallel_realize hg.tracks hr) fun _ _ u u' hg' _ => .get_bind ?_
  have hready : W.Ready t.store.size u.store r :=
    ⟨hr.operand.kept hg'.left, hcomplete.kept hg'.left,
      (hfounded.shallow hcomplete.lt_size).kept hg'.left⟩
  have hsize : t.store.size ≤ u.store.size := hg'.left.size_le
  have hsize' : u.store.size ≤ u'.store.size := hg'.tracks.store.place_size ▸ W.mono.le_apply
  exact evaluates_recursive (by rw [stepBudget]; omega) (by rw [stepBudget]; omega) hint
    (W.ty hint) hg'.tracks hscope hready

end Copying

end Resolvent
