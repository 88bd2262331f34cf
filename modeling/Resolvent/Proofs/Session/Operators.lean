import Resolvent.Proofs.Session.Arguments

/-!
# Operators keep up a regime

Each operator rebuilds its call from elements that it has resolved.
-/

namespace Resolvent

open Run Operator List

namespace Regime

variable {G : Regime} {ι : Type} {R : ι → Steps} {s s' : Session} {n id i a : Nat} {scope : Scope}
  {c : Call} {span : Span}
  {st : Store} {r : Nat} {v : Val} {ok conjunction : Bool} {groups : List (List Nat)}

/-- The call stands under the number, no deeper than allowed, with a signature of its own. -/
structure Ready (G : Regime) (n : Nat) (s : Session) (id : Nat) (c : Call) : Prop where
  admits : G.Admits s
  element : G.Within n s.store id
  content : s.store.content id = .call c
  sig : c.sig.isSome

def Given (G : Regime) (n : Nat) (scope : Scope) (r : Nat) (st : Store) : Prop :=
  G.Within n st r ∧ G.done scope st r

lemma done_literal (hc : st.content r = .literal v) : G.done scope st r :=
  G.data (by simp [hc]) (by simp [hc, Content.isResolved]) (by simp [hc, Content.children])

lemma upholds_literal {k : Nat} (h : G.Admits s) (hv : G.whole → v.isWhole) :
    G.Upholds k (fun _ : ι => literal v span) s (G.Given (n + 1) scope) :=
  (Upholds.literal h hv).mono (fun _ _ ⟨hr, hc⟩ => ⟨hr, done_literal hc⟩)

namespace Ready

lemma grows (h : G.Ready n s id c) (hs : G.Grows s s') : G.Ready n s' id c :=
  ⟨hs.admits, h.element.kept hs.store, hs.store.content h.content nofun, h.sig⟩

lemma args (h : G.Ready (n + 1) s id c) : ∀ a ∈ c.groups.flatten, G.Within n s.store a :=
  fun _ ha => h.element.child h.admits h.content ha

lemma whole (h : G.Ready n s id c) (hw : G.whole) : c.Whole := by
  have hc := (h.admits.whole hw).store id
  rwa [h.content] at hc

lemma arity (h : G.Ready n s id c) (ho : G.orderly) (hb : G.catalog.HasBuiltins) :
    c.callable.Takes c.groups :=
  (h.admits.orderly ho id).arity (h.admits.catalog ▸ hb) c h.content

lemma group (h : G.Ready (n + 1) s id c) (ha : a ∈ c.group i) : G.Within n s.store a :=
  h.args a (c.mem_flatten_of_mem_group ha)

lemma arg? (h : G.Ready (n + 1) s id c) (ha : c.arg? i = some a) : G.Within n s.store a :=
  h.group (mem_of_mem_head? ha)

lemma upholds_finish (h : G.Ready (n + 1) s id c)
    (harity : G.orderly → G.catalog.HasBuiltins → c.callable.Takes groups)
    (hargs : ∀ a ∈ groups.flatten, G.Within n s.store a)
    (hdone : ok → ∀ r st, s.store.Kept st → st.content r = .call { c with groups } →
    G.done scope st r) :
    G.Upholds (n + 1) (fun _ : ι => finish id c groups ok) s (G.Given (n + 1) scope) := by
  refine (Regime.upholds_finish h.admits h.element h.whole harity hargs).mono ?_
  rintro r st ⟨hr, hok, hkept, hcall⟩
  exact ⟨hr, hdone hok r st hkept (hcall h.content)⟩

lemma upholds_rest (h : G.Ready (n + 1) s id c)
    (harity : G.orderly → G.catalog.HasBuiltins → c.callable.Takes groups)
    (htried : G.Tried n scope s.store groups.flatten ok)
    (hrests : ok → ∀ st, s.store.Kept st → Call.Rests { c with groups } G.catalog st) :
    G.Upholds (n + 1) (fun _ : ι => finish id c groups ok) s (G.Given (n + 1) scope) :=
  h.upholds_finish harity htried.within fun hok _ st hkept hcall =>
    G.call hcall h.sig (htried.lt_and_done hok hkept) (hrests hok st hkept)

end Ready

section

variable (hR : G.Handles R n) (hscope : G.whole → scope.Whole)
include hR hscope

/-- What an argument of the call is resolved to may stand for the call. -/
lemma upholds_child {hint : Ty} (h : G.Admits s) (hhint : G.whole → hint.Whole)
    (hid : G.Within n s.store id) :
    G.Upholds (n + 1) (fun i => (R i).resolve scope id hint) s (G.Given (n + 1) scope) := by
  refine ((hR n le_rfl s scope id hint h hscope hhint hid).raise n.le_succ).mono ?_
  rintro r st ⟨hr, hdone, -⟩
  exact ⟨hr.mono n.le_succ, hdone⟩

lemma upholds_resolveArgs (h : G.Ready (n + 1) s id c) :
    G.Upholds n (fun i => resolveArgs (R i) scope c) s fun p st =>
    (G.orderly → G.catalog.HasBuiltins → c.callable.Takes p.1) ∧
    G.Tried n scope st p.1.flatten p.2 := by
  refine (upholds_resolveGroups hR hscope h.admits h.whole h.args _).mono ?_
  rintro ⟨groups, ok⟩ st ⟨hlen, htried⟩
  exact ⟨fun ho hb hc => by simpa [hlen] using h.arity ho hb hc, htried⟩

lemma upholds_resolvePlain (h : G.Ready (n + 1) s id c)
    (hrests : ∀ (groups : List (List Nat)) (st : Store),
    Call.Rests { c with groups } G.catalog st) :
    G.Upholds (n + 1) (fun i => resolvePlain (R i) scope id c) s (G.Given (n + 1) scope) := by
  refine .bind (.raise n.le_succ (upholds_resolveArgs hR hscope h)) ?_
  rintro ⟨groups, ok⟩ s₁ hs₁ ⟨hlen, htried⟩
  exact (h.grows hs₁).upholds_rest hlen htried fun _ st _ => hrests groups st

lemma upholds_resolveFold {leading : Bool} {reduce : List Val → Except EvalCause Val}
    (h : G.Ready (n + 1) s id c) (hreduce : ∀ vs v, reduce vs = .ok v → v.isAtom)
    (hrests : ∀ groups st, Folded leading reduce st groups →
    Call.Rests { c with groups } G.catalog st) :
    G.Upholds (n + 1) (fun i => resolveFold leading reduce (R i) scope id c) s
    (G.Given (n + 1) scope) := by
  have hwhole {vs : List Val} {v : Val} (hv : reduce vs = .ok v) (_ : G.whole) : v.isWhole :=
    Val.closed_isWhole.atom (hreduce vs v hv)
  refine .spanOf_bind (.bind (.raise n.le_succ (upholds_resolveArgs hR hscope h)) ?_)
  rintro ⟨groups, ok⟩ s₁ hs₁ ⟨hlen, htried⟩
  -- Whatever is finished with nothing left to fold is at rest.
  have hfinish {s₂ : Session} {groups : List (List Nat)} (hs₂ : G.Grows s₁ s₂)
      (hlen : G.orderly → G.catalog.HasBuiltins → c.callable.Takes groups)
      (htried : G.Tried n scope s₂.store groups.flatten ok)
      (hfolded : ok → Folded leading reduce s₂.store groups) :
      G.Upholds (n + 1) (fun _ : ι => finish id c groups ok) s₂ (G.Given (n + 1) scope) :=
    (h.grows (hs₁.trans hs₂)).upholds_rest hlen htried fun hok st hkept =>
      hrests groups st ((hfolded hok).kept hkept fun a ha => (htried.within a ha).lt_size)
  cases groups with
  | nil => exact hfinish (.refl hs₁.admits) hlen htried (by simp [Folded])
  | cons args more =>
    have hle := length_knownValues_le s₁.store args
    have hsame := hfinish (.refl hs₁.admits) hlen htried
    refine .get_bind (.ite (fun _ => ?_) fun hall => .ite (fun hlead => ?_) fun hlead => ?_)
    · cases hv : reduce (knownValues s₁.store args) with
      | ok v => exact upholds_literal hs₁.admits (hwhole hv)
      | error e =>
        refine hsame fun _ args' more' heq v hv' => ?_
        cases heq
        simp [hv] at hv'
    · obtain ⟨first, hfirst⟩ : ∃ first, args.head? = some first := by
        cases args with
        | nil => exact absurd hlead.2 (by simp [knownValues])
        | cons a args => exact ⟨a, rfl⟩
      have hlast : (knownValues s₁.store args).length - 1 < args.length := by omega
      rw [hfirst, getElem?_eq_getElem hlast]
      cases hv : reduce (knownValues s₁.store args) with
      | error e =>
        refine hsame fun _ args' more' heq v hv' => ?_
        cases heq
        simp [hv] at hv'
      | ok v =>
        -- There is an argument to fold, so the literal in its place is not too deep.
        have hwithin := htried.within first (by simp [mem_of_mem_head? hfirst])
        refine .bind (.literal (l := n - 1) hs₁.admits (hwhole hv)) ?_
        rintro folded s₂ hs₂ ⟨hlit, hfolded⟩
        have hvalue : knownValues s₂.store
          (folded :: args.drop (knownValues s₁.store args).length) = [v] := by
          rw [knownValues, Store.val?, hfolded]
          rw [knownValues_eq hs₂.store, knownValues_drop]
          exact fun a ha => (htried.within a (by simp [mem_of_mem_drop ha])).lt_size
        refine hfinish hs₂ (by simpa [Callable.Takes] using hlen) ?_ ?_
        · have hrest : G.Tried n scope s₁.store (args.drop (knownValues s₁.store args).length ++
            more.flatten) ok := htried.subset fun a ha => (mem_append.1 ha).elim
              (fun ha => mem_append_left _ (mem_of_mem_drop ha)) (mem_append_right _)
          have hsingle : G.Tried n scope s₂.store [folded] true :=
            .singleton (hwithin.raise hlit) fun _ => done_literal hfolded
          simpa using hsingle.append (hrest.kept hs₂.store)
        · intro hok args' more' heq w _
          cases heq
          rw [hvalue]
          refine ⟨fun h => hall ⟨?_, hok, by simp [h.2]⟩, by simp⟩
          have hlength := h.1
          simp only [length_cons, length_nil, length_drop] at hlength
          omega
    · refine hsame fun hok args' more' heq v _ => ?_
      cases heq
      exact ⟨fun h => hall ⟨h.1, hok, by simp [h.2]⟩, hlead⟩

lemma upholds_resolveLogicArgs {kept ids : List Nat} (h : G.Admits s)
    (hids : ∀ i ∈ ids, G.Within n s.store i) (hkept : G.Tried n scope s.store kept ok)
    (hunknown : ok → ∀ a ∈ kept, s.store.val? a = none) :
    G.Upholds n (fun i => resolveLogicArgs conjunction (R i) scope kept ok ids) s fun p st =>
      G.Tried n scope st p.1 p.2.2 ∧ (p.2.1 = false → p.2.2 → Undropped conjunction st p.1) := by
  induction ids generalizing s kept ok with
  | nil => exact .pure h ⟨hkept, fun _ hok => ⟨kept, [], by simp, hunknown hok, .inl rfl⟩⟩
  | cons a rest ih =>
    obtain ⟨ha, hrest⟩ := forall_mem_cons.1 hids
    refine .bind (upholds_resolveOrResidual hR hscope h whole_void ha le_rfl) ?_
    rintro ⟨r, resolved⟩ s₁ hs₁ hr
    replace hrest := hs₁.within hrest
    have hboth := (hkept.kept hs₁.store).append hr
    have hunknown₁ (hok : ok) (a : Nat) (ha : a ∈ kept) : s₁.store.val? a = none := by
      rw [hs₁.store.val?_eq (hkept.within a ha).lt_size, hunknown hok a ha]
    cases resolved with
    | false => exact ih hs₁.admits hrest (by simpa using hboth) nofun
    | true =>
      rw [Bool.and_true] at hboth
      refine .val?_bind ?_
      cases hv : s₁.store.val? r with
      | none =>
        refine ih hs₁.admits hrest hboth fun hok => forall_mem_append.2 ⟨hunknown₁ hok, ?_⟩
        simpa using hv
      | some v =>
        refine .ite (fun hd => .ite (fun _ => .pure hs₁.admits ⟨.nil, nofun⟩) fun hne =>
          .pure hs₁.admits ⟨hboth, ?_⟩) fun _ => ?_
        · exact fun _ hok =>
            ⟨kept, [r], rfl, hunknown₁ hok, .inr ⟨by simpa using hne, r, v, rfl, hv, hd⟩⟩
        · exact ih hs₁.admits hrest (hkept.kept hs₁.store) hunknown₁

lemma upholds_resolveLogic (h : G.Ready (n + 1) s id c) (harity : ∀ kept, c.callable.Takes [kept])
    (hrests : ∀ kept st, kept ≠ [] → Undropped conjunction st kept →
    Call.Rests { c with groups := [kept] } G.catalog st) :
    G.Upholds (n + 1) (fun i => resolveLogic conjunction (R i) scope id c) s
    (G.Given (n + 1) scope) := by
  refine .spanOf_bind (.bind (.raise n.le_succ
    (upholds_resolveLogicArgs hR hscope h.admits (fun _ ha => h.group ha) .nil nofun)) ?_)
  rintro ⟨kept, decided, ok⟩ s₁ hs₁ ⟨htried, hundropped⟩
  refine .ite (fun _ => upholds_literal hs₁.admits fun _ => rfl) fun hundecided => ?_
  refine .ite (fun _ => upholds_literal hs₁.admits fun _ => rfl) fun hempty => ?_
  refine (h.grows hs₁).upholds_rest (fun _ _ => harity kept) (by simpa using htried)
    fun hok st hkept => ?_
  refine hrests kept st (by simpa using hempty) ?_
  exact (hundropped (by simpa using hundecided) hok).kept hkept fun a ha =>
    (htried.within a ha).lt_size

lemma upholds_negated (h : G.Ready (n + 1) s id c) (hop : c.callable.op = .builtin .not)
    (hr : G.Tried n scope s.store [r] ok) (hval : ok → s.store.val? r = none) :
    G.Upholds (n + 1) (fun i => match negated? s.store r, s.catalog.callable? Builtin.ok.name with
      | some inner, some truth => do
        let el ← alloc (.call ⟨truth, [[inner]], none⟩) span
        if ok then (R i).resolve scope el .void else throw (.unresolved el)
      | _, _ => finish id c [[r]] ok) s (G.Given (n + 1) scope) := by
  have hwithin := hr.within r (by simp)
  have hfinish (hnone : negated? s.store r = none ∨ s.catalog.callable? Builtin.ok.name = none) :
      G.Upholds (n + 1) (fun _ : ι => finish id c [[r]] ok) s (G.Given (n + 1) scope) := by
    refine h.upholds_rest (fun _ _ => .of_builtin hop rfl) (by simpa using hr) ?_
    intro hok st hkept
    have hnegated : negated? st r = negated? s.store r := by
      rw [negated?, negated?, hkept.content_eq hwithin.lt_size]
    simp only [Call.Rests, hop]
    exact ⟨r, rfl, by rw [hkept.val?_eq hwithin.lt_size, hval hok], by rwa [hnegated,
      ← h.admits.catalog]⟩
  cases hinner : negated? s.store r with
  | none => exact hfinish (.inl hinner)
  | some inner =>
    cases htruth : s.catalog.callable? Builtin.ok.name with
    | none => exact hfinish (.inr htruth)
    | some truth =>
      have hchild : G.Within (n - 1) s.store inner := by
        unfold negated? at hinner
        split at hinner
        · next c' hc =>
          split at hinner
          · exact hwithin.child h.admits hc (c'.mem_flatten_of_mem_group (mem_of_mem_head? hinner))
          · cases hinner
        · cases hinner
      have harity (_ : G.orderly) (hb : G.catalog.HasBuiltins) : truth.Takes [[inner]] := by
        rw [h.admits.catalog, hb .ok] at htruth
        cases htruth
        exact fun _ => rfl
      have hwhole (hw : G.whole) : Call.Whole ⟨truth, [[inner]], none⟩ :=
        ⟨(h.admits.whole hw).catalog.callable? htruth, nofun⟩
      refine .bind (.alloc h.admits (.call (by simpa using hchild) harity hwhole)) ?_
      rintro el s₂ hs₂ ⟨hel, -⟩
      replace hel := hwithin.raise hel
      refine .ite (fun _ => ?_) fun _ => .throw_unresolved hs₂.admits (hel.mono n.le_succ)
      exact upholds_child hR hscope hs₂.admits whole_void hel

lemma upholds_resolveNot (h : G.Ready (n + 1) s id c) (hop : c.callable.op = .builtin .not) :
    G.Upholds (n + 1) (fun i => resolveNot (R i) scope id c) s (G.Given (n + 1) scope) := by
  refine .spanOf_bind (.bind (upholds_needArg h.admits) fun a s₀ hs₀ ha => ?_)
  have h₀ := h.grows hs₀
  refine .bind (.raise n.le_succ (upholds_resolveOrResidual hR hscope h₀.admits whole_void
    (h₀.arg? ha) le_rfl)) ?_
  rintro ⟨r, ok⟩ s₁ hs₁ hr
  have h₁ := h₀.grows hs₁
  refine .get_bind ?_
  cases hv : s₁.store.val? r with
  | none => exact upholds_negated hR hscope h₁ hop hr fun _ => hv
  | some v =>
    cases ok with
    | true => exact upholds_literal hs₁.admits fun _ => rfl
    | false => exact upholds_negated hR hscope h₁ hop hr nofun

lemma upholds_branches (h : G.Ready (n + 1) s id c) (hop : c.callable.op = .builtin .cond)
    (hpos : 0 < c.groups.length)
    (hr : G.Tried n scope s.store [r] ok) (hval : ok → s.store.val? r = none) :
    G.Upholds (n + 1) (fun i => do
      let (groups, oks) ← resolveGroups (R i) scope c ((range c.groups.length).drop 1)
      finish id c ([r] :: groups) (ok && oks)) s (G.Given (n + 1) scope) := by
  refine .bind (.raise n.le_succ (upholds_resolveGroups hR hscope h.admits h.whole h.args _)) ?_
  rintro ⟨groups, oks⟩ s₂ hs₂ ⟨hlen, htried⟩
  refine (h.grows hs₂).upholds_rest (fun ho hb hc => ?_) ((hr.kept hs₂.store).append htried)
    fun hok st hkept => ?_
  · have := h.arity ho hb hc
    simp only [length_drop, length_range] at hlen
    simp only [length_cons, hlen]
    omega
  · simp only [Call.Rests, hop]
    refine ⟨r, groups, rfl, ?_⟩
    rw [(hs₂.store.trans hkept).val?_eq (hr.within r (by simp)).lt_size, hval (by simp_all)]

lemma upholds_resolveCond (h : G.Ready (n + 1) s id c) (hop : c.callable.op = .builtin .cond) :
    G.Upholds (n + 1) (fun i => resolveCond (R i) scope id c) s (G.Given (n + 1) scope) := by
  refine .spanOf_bind (.bind (upholds_needArg h.admits) fun a s₀ hs₀ ha => ?_)
  have hpos : 0 < c.groups.length := by
    rcases hc : c.groups with _ | _
    · simp [Call.arg?, Call.group, hc] at ha
    · simp
  have h₀ := h.grows hs₀
  refine .bind (.raise n.le_succ (upholds_resolveOrResidual hR hscope h₀.admits whole_void
    (h₀.arg? ha) le_rfl)) ?_
  rintro ⟨r, ok⟩ s₁ hs₁ hr
  have h₁ := h₀.grows hs₁
  refine .val?_bind ?_
  cases hv : s₁.store.val? r with
  | none => exact upholds_branches hR hscope h₁ hop hpos hr fun _ => hv
  | some v =>
    cases ok with
    | false => exact upholds_branches hR hscope h₁ hop hpos hr (by simp)
    | true =>
      dsimp only
      cases hbranch : c.arg? (if v.isZero then 2 else 1) with
      | none => exact upholds_literal hs₁.admits fun _ => rfl
      | some branch =>
        have hresult (hw : G.whole) : c.typ.result.Whole := (h.whole hw).typ.result
        exact upholds_child hR hscope hs₁.admits hresult (h₁.arg? hbranch)

lemma upholds_resolveConstruct (h : G.Ready (n + 1) s id c)
    (hop : c.callable.op = .builtin .construct) :
    G.Upholds (n + 1) (fun i => resolveConstruct (R i) scope id c) s (G.Given (n + 1) scope) := by
  have hplain : G.Upholds (n + 1) (fun i => resolvePlain (R i) scope id c) s fun r st =>
    G.Within (n + 1) st r ∧ ∃ groups, st.content r = .call { c with groups } ∧
      G.Tried n scope st groups.flatten true := by
    refine .bind (.raise n.le_succ (upholds_resolveArgs hR hscope h)) ?_
    rintro ⟨groups, ok⟩ s₁ hs₁ ⟨hlen, htried⟩
    have h₁ := h.grows hs₁
    refine (upholds_finish h₁.admits h₁.element h₁.whole hlen htried.within).mono ?_
    rintro r st ⟨hr, hok, hkept, hcall⟩
    obtain rfl : ok = true := hok
    exact ⟨hr, groups, hcall h₁.content, htried.kept hkept⟩
  refine .spanOf_bind (.bind hplain fun next s₁ hs₁ ⟨hnext, groups, hcall, htried⟩ => .get_bind ?_)
  -- The call is at rest if no value can be made of it.
  have hrest (hun : Unconstructed s₁.store { c with groups }) : G.done scope s₁.store next := by
    refine G.call hcall h.sig (htried.lt_and_done rfl (.refl _)) ?_
    simp only [Call.Rests, hop]
    exact hun
  dsimp only
  rw [hcall]
  dsimp only
  cases ht : target? s₁.store { c with groups } with
  | none => exact .pure hs₁.admits ⟨hnext, hrest fun t ht' => by simp [ht] at ht'⟩
  | some t =>
    have hresult (hw : G.whole) : (Call.typ { c with groups }).result.Whole :=
      (h.whole hw).typ.result
    have htarget (hw : G.whole) : t.Whole := by
      unfold target? at ht
      split at ht
      · next u hu =>
        cases ht
        obtain ⟨a, -, ha⟩ := Option.bind_eq_some_iff.1 hu
        simpa [Val.isWhole] using (hs₁.admits.whole hw).store.val? ha
      · cases ht
    refine .bind (upholds_unify hs₁.admits hresult htarget) fun _ s₂ hs₂ _ => ?_
    have hsame (hun : ∀ v,
      ((Call.group { c with groups } 1).mapM s₁.store.val?).map (Val.construct t) ≠ some (.ok v)) :
        G.Upholds (n + 1) (fun _ : ι => (pure next : Run Nat)) s₂ (G.Given (n + 1) scope) := by
      refine .pure hs₂.admits ⟨hnext.kept hs₂.store, G.kept (hrest ?_) hs₂.store⟩
      intro t' ht'
      cases ht.symm.trans ht'
      exact hun
    split
    · next v hv =>
      obtain ⟨vs, hvs, hv⟩ := Option.map_eq_some_iff.1 hv
      refine upholds_literal hs₂.admits fun hw => Val.closed_isWhole.construct (fun v hv => ?_) hv
      obtain ⟨a, -, ha⟩ := exists_of_mem_mapM hvs v hv
      exact (hs₁.admits.whole hw).store.val? ha
    · next hun => exact hsame fun v hv => hun v hv

end

end Regime

end Resolvent
