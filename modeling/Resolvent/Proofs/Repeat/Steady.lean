import Resolvent.Proofs.Session.Lawful

/-!
# Calls over steady arguments

An element is steady if resolving it gives the element itself or fails, in the session at hand and
in all that grow from it.
-/

namespace Resolvent

open List

variable {groups : List (List Nat)} {e : Failure}

namespace Failure

/-- The types do not fit. -/
def isTyping : Failure → Bool
  | typing _ _ => true
  | _ => false

end Failure

namespace Run

open Session

variable {α β : Type} {s s' : Session} {P P' : α → Store → Prop} {Q : β → Store → Prop}
  {S : α → Prop} {T : β → Prop} {strict : Prop} {id : Nat} {span : Span} {m : Run α} {k : α → Run β}

def Ensures (m : Run β) (s : Session) (T : β → Prop) : Prop := ∀ b, (m.exec s).1 = .ok b → T b

namespace Ensures

lemma any : Ensures m s fun _ => True := fun _ _ => trivial

lemma pure {b : β} (hb : T b) : Ensures (Pure.pure b) s T := by
  rintro _ ⟨⟩
  exact hb

lemma throw : Ensures (MonadExcept.throw e) s T := nofun

lemma bind (h : Ensures m s S) (hk : ∀ a s', S a → Ensures (k a) s' T) : Ensures (m >>= k) s T := by
  intro b hb
  rw [exec_bind] at hb
  rcases hm : m.exec s with ⟨e | a, s'⟩ <;> rw [hm] at hb
  · cases hb
  · exact hk a s' (h a (by rw [hm])) b hb

lemma ite {c : Prop} [Decidable c] {m m' : Run β} (ht : c → Ensures m s T)
    (hf : ¬ c → Ensures m' s T) : Ensures (if c then m else m') s T := by
  split
  · next hc => exact ht hc
  · next hc => exact hf hc

end Ensures

/-- The steps give a result of which `P` holds and keep the session orderly, or they fail. Strict
ones fail with type errors only; others may also give results that are spoiled in the sense of `S`.
-/
def Tries (strict : Prop) (m : Run α) (s : Session) (P : α → Store → Prop) (S : α → Prop) : Prop :=
  Ends m s fun r s' => match r with
    | .ok a => s.Grown s' ∧ P a s'.store ∨ ¬ strict ∧ S a
    | .error e => strict → e.isTyping

abbrev Yields (strict : Prop) (m : Run α) (s : Session) (P : α → Store → Prop) : Prop :=
  Tries strict m s P fun _ => False

lemma Yields.ok {a : α} (h : Yields strict m s P) (hm : (m.exec s).1 = .ok a) :
    P a (m.exec s).2.store := by
  unfold Yields Tries Ends at h
  rw [hm] at h
  exact (h.resolve_right fun hspoiled => hspoiled.2).2

lemma Yields.error (h : Yields strict m s P) (hm : (m.exec s).1 = .error e) (hs : strict) :
    e.isTyping := by
  unfold Yields Tries Ends at h
  rw [hm] at h
  exact h hs

namespace Tries

lemma mono (h : Tries strict m s P S) (hP : ∀ a s', s.Grown s' → P a s'.store → P' a s'.store) :
    Tries strict m s P' S := by
  refine Ends.mono h fun r s' hr => ?_
  cases r with
  | ok a => exact hr.imp_left fun ⟨hg, ha⟩ => ⟨hg, hP a s' hg ha⟩
  | error e => exact hr

lemma relax {strict' : Prop} (h : Tries strict' m s P S) (hs : strict → strict') :
    Tries strict m s P S := by
  refine Ends.mono h fun r s' hr => ?_
  cases r with
  | ok a => exact hr.imp_right fun ⟨hns, ha⟩ => ⟨fun hstrict => hns (hs hstrict), ha⟩
  | error e => exact fun hstrict => hr (hs hstrict)

lemma of_keeps (hns : ¬ strict) (h : Keeps m s P) : Tries strict m s P S := by
  refine Ends.mono h fun r s' ⟨hg, hr⟩ => ?_
  cases r with
  | ok a => exact .inl ⟨hg, hr⟩
  | error e => exact fun hstrict => absurd hstrict hns

lemma pure {a : α} (h : s.Orderly) (ha : P a s.store) : Tries strict (Pure.pure a) s P S :=
  Ends.pure (.inl ⟨.refl h, ha⟩)

lemma spoiled {a : α} (hns : ¬ strict) (ha : S a) : Tries strict (Pure.pure a) s P S :=
  Ends.pure (.inr ⟨hns, ha⟩)

lemma throw (he : strict → e.isTyping) : Tries strict (MonadExcept.throw e) s P S := Ends.throw he

lemma bind (h : Tries strict m s P S)
    (hk : ∀ a s', s.Grown s' → P a s'.store → Tries strict (k a) s' Q T)
    (hspoiled : ∀ a s', S a → Ensures (k a) s' T) : Tries strict (m >>= k) s Q T := by
  refine Ends.bind h ?_ fun e s' he => he
  rintro a s' (⟨hg, ha⟩ | ⟨hns, ha⟩)
  · refine Ends.mono (hk a s' hg ha) fun r s'' hr => ?_
    cases r with
    | ok b => exact hr.imp_left fun ⟨hg', hb⟩ => ⟨hg.trans hg', hb⟩
    | error e => exact hr
  · have hensures := hspoiled a s' ha
    unfold Ends
    rcases hm : (k a).exec s' with ⟨e | b, s''⟩
    · exact fun hstrict => absurd hstrict hns
    · exact .inr ⟨hns, hensures b (by rw [hm])⟩

lemma pure_bind {a : α} (h : Tries strict (k a) s Q T) : Tries strict (Pure.pure a >>= k) s Q T := h

lemma get_bind {k : Session → Run β} (h : Tries strict (k s) s Q T) :
    Tries strict (get >>= k) s Q T := Ends.get_bind h

lemma spanOf_bind {k : Span → Run β} (h : Tries strict (k (s.store.span id)) s Q T) :
    Tries strict (spanOf id >>= k) s Q T :=
  Ends.spanOf_bind h

lemma typeOf_bind {k : Ty → Run β} (h : Tries strict (k (s.typeOf id)) s Q T) :
    Tries strict (typeOf id >>= k) s Q T :=
  Ends.typeOf_bind h

lemma val?_bind {k : Option Val → Run β} (h : Tries strict (k (s.store.val? id)) s Q T) :
    Tries strict (val? id >>= k) s Q T :=
  Ends.val?_bind h

lemma ite {b : Prop} [Decidable b] {m' : Run α} (ht : b → Tries strict m s P S)
    (hf : ¬ b → Tries strict m' s P S) : Tries strict (if b then m else m') s P S :=
  Ends.ite ht hf

lemma solve {m : Solve α} (h : s.Orderly) (hm : m.Safe) (span : Span) :
    Yields strict (Run.solve m span) s fun _ _ => True := by
  refine Ends.of_exec (exec_solve m span s) ?_
  cases (m.exec s.subst).1 with
  | ok a => exact .inl ⟨.of_store_eq h rfl rfl rfl (hm _), trivial⟩
  | error e => exact fun _ => rfl

lemma solve_bind {m : Solve α} (h : s.Orderly) (hm : m.Safe)
    (hk : ∀ a s', s.Grown s' → Tries strict (k a) s' Q T) :
    Tries strict (Run.solve m span >>= k) s Q T :=
  .bind (.solve h hm span) (fun a s' hg _ => hk a s' hg) fun _ _ hfalse => hfalse.elim

lemma alloc {content : Content} (h : s.Orderly) (hc : content.Fits s.catalog s.store.size) :
    Yields strict (Run.alloc content span) s fun r st => st.content r = content := by
  have hg : s.Grown { s with store := (s.store.alloc content span).2 } :=
    ⟨.alloc _ _ _, Store.Orderly.alloc h hc, rfl, rfl, id⟩
  exact Ends.of_exec rfl (.inl ⟨hg, Store.content_alloc_size _ _ _⟩)

lemma attempt_bind {k : Except Failure α → Run β} (h : Yields strict m s P)
    (hok : ∀ a s', s.Grown s' → P a s'.store → Tries strict (k (.ok a)) s' Q T)
    (herr : ∀ e s', (strict → e.isTyping) → Tries strict (k (.error e)) s' (fun _ _ => False) T) :
    Tries strict (m.attempt >>= k) s Q T := by
  refine Ends.attempt_bind (Ends.mono h fun r s' hr => ?_)
  cases r with
  | ok a =>
    obtain ⟨hg, ha⟩ : s.Grown s' ∧ P a s'.store := hr.resolve_right fun hfalse => hfalse.2
    refine Ends.mono (hok a s' hg ha) fun r s'' hr => ?_
    cases r with
    | ok b => exact hr.imp_left fun ⟨hg', hb⟩ => ⟨hg.trans hg', hb⟩
    | error e => exact hr
  | error e =>
    refine Ends.mono (herr e s' hr) fun r s'' hr => ?_
    cases r with
    | ok b => exact hr.imp_left fun hfalse => hfalse.2.elim
    | error e => exact hr

end Tries

end Run

open Run

/-- Resolving the element gives the element itself or fails, now and later. -/
def Steps.Steady (steps : Steps) (strict : Prop) (scope : Scope) (s : Session) (a : Nat) : Prop :=
  ∀ s' hint, s.Grown s' → Yields strict (steps.resolve scope a hint) s' fun r _ => r = a

lemma Steps.Steady.grown {steps : Steps} {strict : Prop} {scope : Scope} {s s' : Session} {a : Nat}
    (h : steps.Steady strict scope s a) (hg : s.Grown s') : steps.Steady strict scope s' a :=
  fun s'' hint hg' => h s'' hint (hg.trans hg')

namespace Call

lemma map_group_range (c : Call) : (range c.groups.length).map c.group = c.groups := by
  refine ext_getElem (by simp) fun i _ hi => ?_
  simp [group, getElem?_eq_getElem hi]

end Call

/-! ## Arguments -/

namespace Run

variable {s : Session} {strict : Prop} {id a : Nat} {ids is : List Nat} {scope : Scope} {hint : Ty}
  {steps : Steps} {c : Call}

lemma tries_residual (he : strict → e.isTyping) :
    Tries strict (residual e) s (fun _ _ => False) fun _ => True := by
  unfold residual
  split
  · next el =>
    have hns : ¬ strict := fun hstrict => absurd (he hstrict) nofun
    exact .get_bind (.ite (fun _ => .spoiled hns trivial) fun _ => .throw he)
  · exact .throw he

lemma tries_resolveOrResidual (h : s.Orderly) (ha : steps.Steady strict scope s a) :
    Tries strict (resolveOrResidual steps scope a hint) s (fun p _ => p = (a, true)) fun p =>
    p.2 = false := by
  refine .attempt_bind (ha s hint (.refl h)) ?_ ?_
  · rintro _ s' hg rfl
    exact .pure hg.orderly rfl
  · intro e s' he
    exact .bind (tries_residual he) (fun _ _ _ hfalse => hfalse.elim) fun _ _ _ => .pure rfl

lemma tries_resolveAll (h : s.Orderly) (hids : ∀ a ∈ ids, steps.Steady strict scope s a) :
    Tries strict (resolveAll steps scope hint ids) s (fun p _ => p = (ids, true)) fun p =>
    p.2 = false := by
  induction ids generalizing s with
  | nil => exact .pure h rfl
  | cons a ids ih =>
    refine .bind (tries_resolveOrResidual h (hids a (by simp))) ?_ ?_
    · rintro _ s₁ hg₁ rfl
      refine .bind (ih hg₁.orderly fun b hb => (hids b (by simp [hb])).grown hg₁) ?_ ?_
      · rintro _ s₂ hg₂ rfl
        exact .pure hg₂.orderly rfl
      · rintro ⟨rs, _⟩ s₂ ⟨⟩
        exact .pure rfl
    · rintro ⟨r, _⟩ s₁ ⟨⟩
      exact .bind .any fun p s₂ _ => .pure rfl

lemma tries_resolveGroups (h : s.Orderly)
    (hargs : ∀ i ∈ is, ∀ a ∈ c.group i, steps.Steady strict scope s a) :
    Tries strict (resolveGroups steps scope c is) s (fun p _ => p = (is.map c.group, true)) fun p =>
    p.2 = false := by
  induction is generalizing s with
  | nil => exact .pure h rfl
  | cons i is ih =>
    refine .bind (tries_resolveAll h (hargs i (by simp))) ?_ ?_
    · rintro _ s₁ hg₁ rfl
      refine .bind (ih hg₁.orderly fun j hj a ha => (hargs j (by simp [hj]) a ha).grown hg₁) ?_ ?_
      · rintro _ s₂ hg₂ rfl
        exact .pure hg₂.orderly rfl
      · rintro ⟨gs, _⟩ s₂ ⟨⟩
        exact .pure rfl
    · rintro ⟨g, _⟩ s₁ ⟨⟩
      exact .bind .any fun p s₂ _ => .pure rfl

lemma tries_resolveArgs (h : s.Orderly)
    (hargs : ∀ a ∈ c.groups.flatten, steps.Steady strict scope s a) :
    Tries strict (resolveArgs steps scope c) s (fun p _ => p = (c.groups, true)) fun p =>
    p.2 = false := by
  refine (tries_resolveGroups h fun i _ a ha => hargs a (c.mem_flatten_of_mem_group ha)).mono
    fun p _ _ hp => ?_
  rw [hp, c.map_group_range]

lemma yields_finish (h : s.Orderly) (hgroups : groups = c.groups) :
    Yields strict (finish id c groups true) s fun r _ => r = id := by
  subst hgroups
  unfold finish
  rw [if_pos rfl]
  exact .pure_bind (.pure h rfl)

lemma ensures_finish : Ensures (finish id c groups false) s fun _ => False :=
  .ite (fun _ => .throw) fun _ => .bind .any fun _ _ _ => .bind .any fun _ _ _ => .throw

end Run

/-! ## Calls -/

namespace Operator

variable {s : Session} {strict : Prop} {id a : Nat} {scope : Scope} {steps : Steps} {c : Call}
  {args : List Nat} {conjunction : Bool}

lemma yields_resolvePlain (h : s.Orderly)
    (hargs : ∀ a ∈ c.groups.flatten, steps.Steady strict scope s a) :
    Yields strict (resolvePlain steps scope id c) s fun r _ => r = id := by
  refine .bind (tries_resolveArgs h hargs) ?_ ?_
  · rintro _ s₁ hg₁ rfl
    exact yields_finish hg₁.orderly rfl
  · rintro ⟨groups, _⟩ s₁ ⟨⟩
    exact ensures_finish

lemma yields_resolveFold {leading : Bool} {reduce : List Val → Except EvalCause Val} (h : c.At s id)
    (hargs : ∀ a ∈ c.groups.flatten, steps.Steady strict scope s a)
    (hfolded : Folded leading reduce s.store c.groups) :
    Yields strict (resolveFold leading reduce steps scope id c) s fun r _ => r = id := by
  refine .spanOf_bind (.bind (tries_resolveArgs h.orderly hargs) ?_ ?_)
  · rintro _ s₁ hg₁ rfl
    have hfolded₁ := hfolded.kept hg₁.store h.args_lt
    dsimp only
    split
    · next hc => exact yields_finish hg₁.orderly hc.symm
    · next args more hc =>
      have hsame : Yields strict (finish id c (args :: more) true) s₁ fun r _ => r = id :=
        yields_finish hg₁.orderly hc.symm
      refine .get_bind (.ite (fun hall => ?_) fun _ => .ite (fun hlead => ?_) fun _ => hsame)
      · split
        · next v hv => exact absurd ⟨hall.1, by simpa using hall.2.2⟩ (hfolded₁ args more hc v hv).1
        · exact hsame
      · split
        · next v _ _ hv _ _ => exact absurd ⟨hlead.1, hlead.2⟩ (hfolded₁ args more hc v hv).2
        · exact hsame
  · rintro ⟨groups, _⟩ s₁ ⟨⟩
    cases groups with
    | nil => exact ensures_finish
    | cons args more =>
      refine .bind .any fun s₂ _ _ => .ite (fun hall => absurd hall.2.1 nofun) fun _ =>
        .ite (fun _ => ?_) fun _ => ensures_finish
      split
      · exact .bind .any fun _ _ _ => ensures_finish
      · exact ensures_finish

/-- Logic keeps an argument that is not resolved. -/
def Open (p : List Nat × Bool × Bool) : Prop := p.1 ≠ [] ∧ p.2.1 = false ∧ p.2.2 = false

lemma ensures_resolveLogicArgs {kept ids : List Nat} (hkept : kept ≠ []) :
    Ensures (resolveLogicArgs conjunction steps scope kept false ids) s Open := by
  induction ids generalizing s kept with
  | nil => exact .pure ⟨hkept, rfl, rfl⟩
  | cons a rest ih =>
    refine .bind .any fun p s₁ _ => .ite (fun _ => .bind .any fun v s₂ _ => ?_) fun _ =>
      ih (by simp)
    split
    · refine .ite (fun _ => .ite (fun hempty => absurd (List.isEmpty_iff.1 hempty) hkept) fun _ =>
        ?_) fun _ => ih hkept
      exact .pure ⟨by simp, rfl, rfl⟩
    · exact ih (by simp)

lemma tries_resolveLogicArgs {kept front back : List Nat} (h : s.Orderly)
    (hargs : ∀ a ∈ front ++ back, steps.Steady strict scope s a)
    (hlt : ∀ a ∈ front ++ back, a < s.store.size) (hfront : ∀ a ∈ front, s.store.val? a = none)
    (hback : back = [] ∨ kept ++ front ≠ [] ∧ ∃ a v, back = [a] ∧ s.store.val? a = some v ∧
    decides conjunction v) :
    Tries strict (resolveLogicArgs conjunction steps scope kept true (front ++ back)) s
      (fun p _ => p = (kept ++ (front ++ back), false, true)) Open := by
  induction front generalizing s kept with
  | cons a front ih =>
    refine .bind (tries_resolveOrResidual h (hargs a (by simp))) ?_ ?_
    · rintro _ s₁ hg₁ rfl
      have ha : s₁.store.val? a = none := by
        rw [hg₁.store.val?_eq (hlt a (by simp)), hfront a (by simp)]
      refine .val?_bind ?_
      rw [ha]
      have hsame (b : Nat) (hb : b ∈ front ++ back) : s₁.store.val? b = s.store.val? b :=
        hg₁.store.val?_eq (hlt b (mem_cons_of_mem a hb))
      have hrest : Tries strict (resolveLogicArgs conjunction steps scope (kept ++ [a]) true
        (front ++ back)) s₁
          (fun p _ => p = (kept ++ [a] ++ (front ++ back), false, true)) Open := by
        refine ih hg₁.orderly (fun b hb => (hargs b (mem_cons_of_mem a hb)).grown hg₁)
          (fun b hb => hg₁.lt_size (hlt b (mem_cons_of_mem a hb))) (fun b hb => ?_) ?_
        · rw [hsame b (by simp [hb]), hfront b (by simp [hb])]
        · refine hback.imp_right fun ⟨_, b, v, hb, hv, hd⟩ => ⟨by simp, b, v, hb, ?_, hd⟩
          rw [hsame b (by simp [hb]), hv]
      exact hrest.mono fun p _ _ hp => by simp [hp]
    · rintro ⟨r, _⟩ s₁ ⟨⟩
      exact ensures_resolveLogicArgs (by simp)
  | nil =>
    rcases hback with rfl | ⟨hne, a, v, rfl, hv, hd⟩
    · exact .pure h (by simp)
    · rw [nil_append, resolveLogicArgs]
      refine .bind (tries_resolveOrResidual h (hargs a (by simp))) ?_ ?_
      · rintro _ s₁ hg₁ rfl
        refine .val?_bind ?_
        have hne : kept.isEmpty = false := by simpa using hne
        rw [hg₁.store.val?_eq (hlt a (by simp)), hv]
        simp only [hd, hne]
        exact .pure hg₁.orderly rfl
      · rintro ⟨r, _⟩ s₁ ⟨⟩
        exact ensures_resolveLogicArgs (by simp)

lemma yields_resolveLogic (h : c.At s id) (hgroups : c.groups = [c.group 0]) (hne : c.group 0 ≠ [])
    (hargs : ∀ a ∈ c.group 0, steps.Steady strict scope s a)
    (hundropped : Undropped conjunction s.store (c.group 0)) :
    Yields strict (resolveLogic conjunction steps scope id c) s fun r _ => r = id := by
  obtain ⟨front, back, hsplit, hfront, hback⟩ := hundropped
  have hlogic : Tries strict (resolveLogicArgs conjunction steps scope [] true (c.group 0)) s
      (fun p _ => p = (c.group 0, false, true)) Open := by
    rw [hsplit] at hargs ⊢
    exact tries_resolveLogicArgs h.orderly hargs (fun a ha => h.group_lt (hsplit ▸ ha)) hfront
      (by simpa using hback)
  refine .spanOf_bind (.bind hlogic ?_ ?_)
  · rintro _ s₁ hg₁ rfl
    refine .ite nofun fun _ => .ite (fun hempty => absurd (List.isEmpty_iff.1 hempty) hne) fun _ =>
      ?_
    exact yields_finish hg₁.orderly hgroups.symm
  · rintro ⟨kept, _, _⟩ s₁ ⟨hkept, rfl, rfl⟩
    exact .ite nofun fun _ => .ite (fun hempty => absurd (List.isEmpty_iff.1 hempty) hkept) fun _ =>
      ensures_finish

lemma yields_resolveNot (h : c.At s id) (hgroups : c.groups = [[a]])
    (ha : steps.Steady strict scope s a) (hval : s.store.val? a = none)
    (hinner : negated? s.store a = none ∨ s.catalog.callable? Builtin.ok.name = none) :
    Yields strict (resolveNot steps scope id c) s fun r _ => r = id := by
  have harg : c.arg? 0 = some a := by simp [Call.arg?, Call.group, hgroups]
  have hlt : a < s.store.size := h.arg?_lt harg
  unfold resolveNot needArg
  rw [harg]
  refine .spanOf_bind (.pure_bind (.bind (tries_resolveOrResidual h.orderly ha) ?_ ?_))
  · rintro _ s₁ hg₁ rfl
    refine .get_bind ?_
    have hnegated : negated? s₁.store a = negated? s.store a := by
      rw [negated?, negated?, hg₁.store.content_eq hlt]
    rw [hg₁.store.val?_eq hlt, hval, hnegated, hg₁.catalog]
    rcases hinner with hinner | hinner
    · simp only [hinner]
      exact yields_finish hg₁.orderly hgroups.symm
    · rw [hinner]
      cases negated? s.store a <;> exact yields_finish hg₁.orderly hgroups.symm
  · rintro ⟨r, _⟩ s₁ ⟨⟩
    refine .bind .any fun s₂ _ _ => ?_
    split
    · next hfalse => cases hfalse
    · split
      · exact .bind .any fun _ _ _ => .throw
      · exact ensures_finish

lemma yields_resolveCond (h : c.At s id) (hgroups : c.groups = [a] :: groups)
    (hargs : ∀ a ∈ c.groups.flatten, steps.Steady strict scope s a) (hval : s.store.val? a = none) :
    Yields strict (resolveCond steps scope id c) s fun r _ => r = id := by
  have harg : c.arg? 0 = some a := by simp [Call.arg?, Call.group, hgroups]
  unfold resolveCond needArg
  rw [harg]
  refine .spanOf_bind
    (.pure_bind (.bind (tries_resolveOrResidual h.orderly (hargs a (by simp [hgroups]))) ?_ ?_))
  · rintro _ s₁ hg₁ rfl
    refine .val?_bind ?_
    rw [hg₁.store.val?_eq (h.arg?_lt harg), hval]
    refine .bind (tries_resolveGroups hg₁.orderly fun i _ b hb =>
      (hargs b (c.mem_flatten_of_mem_group hb)).grown hg₁) ?_ ?_
    · rintro _ s₂ hg₂ rfl
      refine yields_finish hg₂.orderly ?_
      rw [map_drop, c.map_group_range, hgroups]
      rfl
    · rintro ⟨groups, _⟩ s₂ ⟨⟩
      exact ensures_finish
  · rintro ⟨r, _⟩ s₁ ⟨⟩
    refine .bind .any fun v s₂ _ => ?_
    split
    · next hfalse => cases hfalse
    · exact .bind .any fun _ _ _ => ensures_finish

lemma yields_resolveLambda {names : List String} {decls body : List Nat} (h : c.At s id)
    (hgroups : c.groups = [decls, body])
    (hparams : Yields strict (resolveParams steps scope id decls) s fun ps _ =>
    ps.map (·.1) = names) (hbody : ∀ ps : List Param, ps.map (·.1) = names → ∀ a ∈ body,
      steps.Steady strict (Frame.params (ps.map fun (n, t) => (n, .typed t)) :: scope) s a)
    (hwaits : (capture scope (freeNames names (s.store.extract body).2.elements.toList)).map (·.2) =
    .ok true) : Yields strict (resolveLambda steps scope id c) s fun r _ => r = id := by
  have hfirst : c.group 0 = decls := by simp [Call.group, hgroups]
  have hsecond : c.group 1 = body := by simp [Call.group, hgroups]
  unfold resolveLambda
  rw [hfirst, hsecond]
  refine .spanOf_bind (.bind hparams (fun ps s₁ hg₁ hps => ?_) fun _ _ hfalse => hfalse.elim)
  refine .bind (tries_resolveAll hg₁.orderly fun a ha => (hbody ps hps a ha).grown hg₁) ?_ ?_
  · rintro _ s₂ hg₂ rfl
    refine .get_bind ?_
    dsimp only
    rw [(hg₁.trans hg₂).store.extract_eq fun a ha => (hg₁.store.orderly hg₁.orderly).founded.shallow
      (h.group_lt (hsecond ▸ ha)), hps]
    cases hcapture : capture scope (freeNames names (s.store.extract body).2.elements.toList) with
    | error e =>
      rw [hcapture] at hwaits
      cases hwaits
    | ok p =>
      obtain ⟨captured, waits⟩ := p
      rw [hcapture] at hwaits
      cases hwaits
      exact .pure_bind (.solve_bind hg₂.orderly (.unify _ _) fun _ s₃ hg₃ =>
        yields_finish hg₃.orderly hgroups.symm)
  · rintro ⟨rs, _⟩ s₂ ⟨⟩
    exact ensures_finish

lemma yields_resolveConstruct (h : c.At s id)
    (hargs : ∀ a ∈ c.groups.flatten, steps.Steady strict scope s a)
    (hun : Unconstructed s.store c) : Yields strict (resolveConstruct steps scope id c) s fun r _ =>
    r = id := by
  refine .spanOf_bind (.bind (yields_resolvePlain h.orderly hargs) ?_ fun _ _ hfalse => hfalse.elim)
  rintro _ s₁ hg₁ rfl
  have hun₁ := hun.kept hg₁.store h.args_lt
  refine .get_bind ?_
  dsimp only
  rw [(h.grown hg₁).content]
  dsimp only
  split
  · next t ht =>
    refine .solve_bind hg₁.orderly (.unify _ _) fun _ s₂ hg₂ => ?_
    split
    · next v hv => exact absurd hv (hun₁ t ht v)
    · exact .pure hg₂.orderly rfl
  · exact .pure hg₁.orderly rfl

end Operator

end Resolvent
