import Resolvent.Proofs.Independence.Copying

/-!
# Steps in two sessions at once

`W.Parallel m m' s s' P` says that the steps `m` from the session `s` and the steps `m'` from the
session `s'`, which copies the first, end alike: in results of which `P` holds, or in failures for
the same reason.
-/

namespace Resolvent

open Run Subst

/-- The reason of the failure, without the place, the element and the types that it is about. -/
def Failure.bare : Failure → Failure
  | unresolved _ => unresolved 0
  | typing e _ => typing e.bare ⟨0, 0⟩
  | missingArg p => missingArg p
  | unexpectedTail _ => unexpectedTail ⟨0, 0⟩
  | unexpectedTag n _ => unexpectedTag n ⟨0, 0⟩
  | uniArity n _ => uniArity n ⟨0, 0⟩
  | unsupported n sigil => unsupported n sigil
  | redefined n => redefined n
  | dispatch _ _ => dispatch .void ⟨0, 0⟩
  | unevaluable _ => unevaluable ⟨0, 0⟩
  | eval c _ => eval c ⟨0, 0⟩
  | read c _ => read c ⟨0, 0⟩
  | exhausted => exhausted

lemma Failure.ne_unresolved_of_bare_eq {e e' : Failure} (h : e'.bare = e.bare)
    (he : ∀ el, e ≠ .unresolved el) (el : Nat) : e' ≠ .unresolved el := by
  rintro rfl
  cases e with
  | unresolved el' => exact he el' rfl
  | _ => cases h

namespace Copying

variable {α α' β β' : Type} {W : Copying} {s s' t t' u u' : Session}
  {P P' : α → α' → Store → Store → Prop}
  {Q : β → β' → Store → Store → Prop} {id id' : Nat} {span span' : Span} {m' : Run α'} {m : Run α}
    {defs : List (String × Definition)} {k' : α' → Run β'} {k : α → Run β} {d : Definition}

/-- The second session has a copy of each element and each type variable of the first. -/
structure Tracks (W : Copying) (s s' : Session) : Prop where
  store : W.Copied s.store s'.store
  subst : Renamed W.before s.subst s'.subst
  catalog : s'.catalog = s.catalog
  builtins : s.catalog.HasBuiltins
  lenient : s'.lenient = s.lenient

lemma Tracks.typeOf_eq (h : W.Tracks s s') (hid : W.Typed s.store s'.store id) :
    s'.typeOf (W.place id) = W.ty (s.typeOf id) := by
  rw [Session.typeOf, hid.typeOf_eq]
  exact h.subst.apply _

/-- Two sessions have grown, and the second still copies the first. -/
structure Grown (W : Copying) (s s' t t' : Session) : Prop where
  left : s.store.Kept t.store
  right : s'.store.Kept t'.store
  tracks : W.Tracks t t'

namespace Grown

lemma refl (h : W.Tracks s s') : W.Grown s s' s s' := ⟨.refl _, .refl _, h⟩

lemma trans (h : W.Grown s s' t t') (h' : W.Grown t t' u u') : W.Grown s s' u u' :=
  ⟨h.left.trans h'.left, h.right.trans h'.right, h'.tracks⟩

lemma typed (h : W.Grown s s' t t') (hs : W.Tracks s s') (hid : W.Typed s.store s'.store id) :
    W.Typed t.store t'.store id :=
  hid.kept hs.store h.left h.right

lemma operands {ids : List Nat} (h : W.Grown s s' t t') (hids : ∀ i ∈ ids, W.Operand s.store i) :
    ∀ i ∈ ids, W.Operand t.store i :=
  fun i hi => (hids i hi).kept h.left

end Grown

/-- Failures for the same reason. An unresolved element that is reported in the first session has
its copy reported in the second. -/
def Fails (W : Copying) (st : Store) (e e' : Failure) : Prop :=
  e'.bare = e.bare ∧ ∀ el, e = .unresolved el → e' = .unresolved (W.place el) ∧ W.Operand st el

/-- Results of which `P` holds, or failures for the same reason. -/
def Ends (W : Copying) (P : α → α' → Store → Store → Prop) (r : Except Failure α)
    (r' : Except Failure α') (st st' : Store) : Prop :=
  match r, r' with
  | .ok a, .ok a' => P a a' st st'
  | .error e, .error e' => W.Fails st e e'
  | _, _ => False

def Parallel (W : Copying) (m : Run α) (m' : Run α') (s s' : Session)
    (P : α → α' → Store → Store → Prop) : Prop :=
  W.Grown s s' (m.exec s).2 (m'.exec s').2 ∧
    W.Ends P (m.exec s).1 (m'.exec s').1 (m.exec s).2.store (m'.exec s').2.store

def Result (W : Copying) (r r' : Nat) (st st' : Store) : Prop := r' = W.place r ∧ W.Typed st st' r

namespace Parallel

lemma of_exec {r : Except Failure α} {r' : Except Failure α'} (hm : m.exec s = (r, t))
    (hm' : m'.exec s' = (r', t')) (hg : W.Grown s s' t t') (hr : W.Ends P r r' t.store t'.store) :
    W.Parallel m m' s s' P := by
  unfold Parallel
  rw [hm, hm']
  exact ⟨hg, hr⟩

lemma mono (h : W.Parallel m m' s s' P)
    (hP : ∀ a a' t t', W.Grown s s' t t' → P a a' t.store t'.store → P' a a' t.store t'.store) :
    W.Parallel m m' s s' P' := by
  obtain ⟨hg, hr⟩ := h
  refine ⟨hg, ?_⟩
  unfold Ends at hr ⊢
  split at hr
  · exact hP _ _ _ _ hg hr
  · exact hr
  · exact hr.elim

lemma pure {a : α} {a' : α'} (h : W.Tracks s s') (ha : P a a' s.store s'.store) :
    W.Parallel (Pure.pure a) (Pure.pure a') s s' P :=
  of_exec rfl rfl (.refl h) ha

lemma throw {e e' : Failure} (h : W.Tracks s s') (he : W.Fails s.store e e') :
    W.Parallel (MonadExcept.throw e : Run α) (MonadExcept.throw e' : Run α') s s' P :=
  of_exec rfl rfl (.refl h) he

lemma throw_bare {e e' : Failure} (h : W.Tracks s s') (he : e'.bare = e.bare)
    (hne : ∀ el, e ≠ .unresolved el) :
    W.Parallel (MonadExcept.throw e : Run α) (MonadExcept.throw e' : Run α') s s' P :=
  throw h ⟨he, fun el hel => absurd hel (hne el)⟩

lemma throw_unresolved (h : W.Tracks s s') (hid : W.Operand s.store id) :
    W.Parallel (MonadExcept.throw (Failure.unresolved id) : Run α)
      (MonadExcept.throw (Failure.unresolved (W.place id)) : Run α') s s' P := by
  refine throw h ⟨rfl, ?_⟩
  rintro _ ⟨⟩
  exact ⟨rfl, hid⟩

lemma attempt_bind {k : Except Failure α → Run β} {k' : Except Failure α' → Run β'}
    (h : W.Parallel m m' s s' P)
    (hk : ∀ r r' t t', W.Grown s s' t t' → W.Ends P r r' t.store t'.store →
    W.Parallel (k r) (k' r') t t' Q) : W.Parallel (m.attempt >>= k) (m'.attempt >>= k') s s' Q := by
  obtain ⟨hg, hr⟩ := h
  obtain ⟨hg', hr'⟩ := hk _ _ _ _ hg hr
  exact ⟨hg.trans hg', hr'⟩

lemma bind (h : W.Parallel m m' s s' P)
    (hk : ∀ a a' t t', W.Grown s s' t t' → P a a' t.store t'.store →
    W.Parallel (k a) (k' a') t t' Q) : W.Parallel (m >>= k) (m' >>= k') s s' Q := by
  obtain ⟨hg, hr⟩ := h
  rcases hm : m.exec s with ⟨e | a, t⟩ <;> rcases hm' : m'.exec s' with ⟨e' | a', t'⟩ <;>
    rw [hm, hm'] at hg hr
  · unfold Parallel
    rw [exec_bind, exec_bind, hm, hm']
    exact ⟨hg, hr⟩
  · exact hr.elim
  · exact hr.elim
  · obtain ⟨hg', hr'⟩ := hk a a' t t' hg hr
    unfold Parallel
    rw [exec_bind, exec_bind, hm, hm']
    exact ⟨hg.trans hg', hr'⟩

lemma pure_bind {a : α} {a' : α'} (h : W.Parallel (k a) (k' a') s s' Q) :
    W.Parallel (Pure.pure a >>= k) (Pure.pure a' >>= k') s s' Q :=
  h

lemma get_bind {k : Session → Run β} {k' : Session → Run β'} (h : W.Parallel (k s) (k' s') s s' Q) :
    W.Parallel (get >>= k) (get >>= k') s s' Q :=
  h

lemma spanOf_bind {k : Span → Run β} {k' : Span → Run β'}
    (h : W.Parallel (k (s.store.span id)) (k' (s'.store.span id')) s s' Q) :
    W.Parallel (spanOf id >>= k) (spanOf id' >>= k') s s' Q :=
  h

lemma typeOf_bind {k : Ty → Run β} {k' : Ty → Run β'}
    (h : W.Parallel (k (s.typeOf id)) (k' (s'.typeOf id')) s s' Q) :
    W.Parallel (typeOf id >>= k) (typeOf id' >>= k') s s' Q :=
  h

lemma val?_bind {k : Option Val → Run β} {k' : Option Val → Run β'}
    (h : W.Parallel (k (s.store.val? id)) (k' (s'.store.val? id')) s s' Q) :
    W.Parallel (val? id >>= k) (val? id' >>= k') s s' Q :=
  h

lemma ite {c c' : Prop} [Decidable c] [Decidable c'] {m₁ m₂ : Run α} {m₁' m₂' : Run α'}
    (hc : c' ↔ c) (ht : c → W.Parallel m₁ m₁' s s' P) (hf : ¬ c → W.Parallel m₂ m₂' s s' P) :
    W.Parallel (if c then m₁ else m₂) (if c' then m₁' else m₂') s s' P := by
  by_cases h : c
  · rw [if_pos h, if_pos (hc.2 h)]
    exact ht h
  · rw [if_neg h, if_neg (mt hc.1 h)]
    exact hf h

lemma ofExcept {x : Except Failure α} {x' : Except Failure α'} (h : W.Tracks s s')
    (hx : W.Ends P x x' s.store s'.store) :
    W.Parallel (MonadExcept.ofExcept x) (MonadExcept.ofExcept x') s s' P :=
  of_exec (exec_ofExcept x s) (exec_ofExcept x' s') (.refl h) hx

lemma alloc {e : Content} (h : W.Tracks s s') (he : W.Plain s.store e) :
    W.Parallel (Run.alloc e span) (Run.alloc (W.content e) span') s s'
      fun r r' st _ => r' = W.place r ∧ r < st.size ∧ st.content r = e := by
  have hg : W.Grown s s' { s with store := (s.store.alloc e span).2 } { s'
    with store := (s'.store.alloc (W.content e) span').2 } :=
    ⟨.alloc _ _ _, .alloc _ _ _, ⟨h.store.alloc he span span', h.subst, h.catalog,
      h.builtins, h.lenient⟩⟩
  have hlt : s.store.size < (s.store.alloc e span).2.size := by simp
  exact of_exec rfl rfl hg ⟨h.store.place_size.symm, hlt, Store.content_alloc_size _ _ _⟩

lemma alloc_copy {e e' : Content} (h : W.Tracks s s') (he : W.Plain s.store e)
    (hcopy : W.content e = e') :
    W.Parallel (Run.alloc e span) (Run.alloc e' span') s s' fun r r' st _ => r' = W.place r ∧
    r < st.size ∧ st.content r = e :=
  hcopy ▸ alloc h he

lemma literal {v : Val} (h : W.Tracks s s') (hv : v.isGround) :
    W.Parallel (Run.literal v span) (Run.literal v span') s s' W.Result := by
  refine (alloc (e := .literal v) h hv).mono ?_
  rintro r _ t t' hg ⟨rfl, hlt, hc⟩
  exact ⟨rfl, .literal hg.tracks.store hlt hc⟩

lemma finished {ok : Bool} {P : Nat → Nat → Store → Store → Prop} (h : W.Tracks s s')
    (hid : W.Operand s.store id) (hok : ok → P id (W.place id) s.store s'.store) :
    W.Parallel (if ok then Pure.pure id else MonadExcept.throw (Failure.unresolved id))
      (if ok then Pure.pure (W.place id)
      else MonadExcept.throw (Failure.unresolved (W.place id))) s s' P :=
  ite Iff.rfl (fun hb => pure h (hok hb)) fun _ => throw_unresolved h hid

lemma solve {m : Solve α} {m' : Solve α'} {P : α → α' → Prop} (h : W.Tracks s s')
    (hm : Solve.Parallel W.before m m' s.subst s'.subst P) :
    W.Parallel (Run.solve m span) (Run.solve m' span') s s' fun a a' _ _ => P a a' := by
  obtain ⟨hsubst, hr⟩ := hm
  have hg : W.Grown s s' { s with subst := (m.exec s.subst).2 } { s'
    with subst := (m'.exec s'.subst).2 } :=
    ⟨.refl _, .refl _, ⟨h.store, hsubst, h.catalog, h.builtins, h.lenient⟩⟩
  refine of_exec (exec_solve m span s) (exec_solve m' span' s') hg ?_
  rcases hm : (m.exec s.subst).1 with e | a <;> rcases hm' : (m'.exec s'.subst).1 with e' | a' <;>
    rw [hm, hm'] at hr
  · exact ⟨congrArg (Failure.typing · ⟨0, 0⟩) hr, nofun⟩
  · exact hr.elim
  · exact hr.elim
  · exact hr

end Parallel

/-! ## Scopes -/

/-- What names stand for in two scopes: the operators in both, and otherwise a definition and its
copy. -/
structure Scopes (W : Copying) (scope scope' : Scope) : Prop where
  operator : ∀ {n c}, W.operator n = some c → ∃ d, scope.lookup n = .ok (some d) ∧
  scope'.lookup n = .ok (some d) ∧ d.callable = some c ∧ d.val = none ∧ d.pending = false
  lookup_eq : ∀ {n}, W.operator n = none →
  scope'.lookup n = (scope.lookup n).map (Option.map W.definition)
  plain : ∀ {n d}, W.operator n = none → scope.lookup n = .ok (some d) → W.Data d

structure Locals (W : Copying) (defs : List (String × Definition)) : Prop where
  name : ∀ p ∈ defs, W.operator p.1 = none
  plain : ∀ p ∈ defs, W.Data p.2

def locals (W : Copying) (defs : List (String × Definition)) : List (String × Definition) :=
  defs.map fun p => (p.1, W.definition p.2)

lemma named?_locals (W : Copying) (defs : List (String × Definition)) (n : String) :
    Frame.named? (W.locals defs) n = (Frame.named? defs n).map W.definition := by
  simp [Frame.named?, locals, Function.comp_def]

lemma Locals.named? (h : W.Locals defs) {n : String} (hd : Frame.named? defs n = some d) :
    W.operator n = none ∧ W.Data d := by
  obtain ⟨p, hp, rfl⟩ := Option.map_eq_some_iff.1 hd
  have hmem := List.mem_of_find?_eq_some hp
  have hname : p.1 = n := by simpa using List.find?_some hp
  exact ⟨hname ▸ h.name p hmem, h.plain p hmem⟩

namespace Scopes

variable {scope scope' : Scope} {n : String}

lemma locals (h : W.Scopes scope scope') (hdefs : W.Locals defs) :
    W.Scopes (.locals defs :: scope) (.locals (W.locals defs) :: scope') := by
  have hcons (n : String) (defs : List (String × Definition)) (scope : Scope) :
    Scope.lookup (.locals defs :: scope) n = if (Sigil.of? n).isSome then scope.lookup n
        else ((Frame.named? defs n).map fun d => .ok (some d)).getD (scope.lookup n) := by
    cases hn : Sigil.of? n with
    | some sigil => rw [Scope.lookup_cons_of_sigil _ _ hn]; rfl
    | none => rw [Scope.lookup_cons_of_plain _ _ hn]; rfl
  constructor
  · intro n c hn
    have hnone : Frame.named? defs n = none := by
      cases hd : Frame.named? defs n with
      | none => rfl
      | some d => cases hn.symm.trans (hdefs.named? hd).1
    simpa [hcons, named?_locals, hnone] using h.operator hn
  · intro n hn
    rw [hcons, hcons, named?_locals]
    split
    · exact h.lookup_eq hn
    · cases Frame.named? defs n with
      | none => exact h.lookup_eq hn
      | some d => rfl
  · intro n d hn hd
    rw [hcons] at hd
    split at hd
    · exact h.plain hn hd
    · cases hnamed : Frame.named? defs n with
      | none =>
        rw [hnamed] at hd
        exact h.plain hn hd
      | some d' =>
        rw [hnamed] at hd
        cases hd
        exact (hdefs.named? hnamed).2

lemma parallel_lookup (h : W.Scopes scope scope') (hs : W.Tracks s s') (hn : W.operator n = none) :
    W.Parallel (ofExcept (scope.lookup n)) (ofExcept (scope'.lookup n)) s s'
      fun found found' _ _ => found' = found.map W.definition ∧ ∀ d ∈ found, W.Data d := by
  refine .ofExcept hs ?_
  rw [h.lookup_eq hn]
  cases hfound : scope.lookup n with
  | error e => exact ⟨rfl, fun el hel => absurd hel ((final_of_lookup hfound).2 el)⟩
  | ok found =>
    refine ⟨rfl, ?_⟩
    rintro d rfl
    exact h.plain hn hfound

lemma schema?_eq (h : W.Scopes scope scope') (n : String) :
    Session.schema? scope' n = Session.schema? scope n := by
  unfold Session.schema?
  cases hn : W.operator ("~" ++ n) with
  | some c =>
    obtain ⟨d, hd, hd', -⟩ := h.operator hn
    rw [hd, hd']
  | none =>
    rw [h.lookup_eq hn]
    cases scope.lookup ("~" ++ n) with
    | error e => rfl
    | ok found =>
      cases found with
      | none => rfl
      | some d =>
        have hval : ((some d).map W.definition).bind (·.val) = (some d).bind (·.val) :=
          W.val_definition d
        simp only [Except.map, Bind.bind, Except.bind, hval]

lemma ground_val (h : W.Scopes scope scope') (hd : scope.lookup n = .ok (some d)) :
    ∀ v ∈ d.val, v.isGround := by
  cases hn : W.operator n with
  | none => exact (h.plain hn hd).ground
  | some c =>
    obtain ⟨d', hd', -, -, hval, -⟩ := h.operator hn
    cases hd.symm.trans hd'
    simp [hval]

lemma ground_schema? (h : W.Scopes scope scope') (n : String) :
    Definite (Session.schema? scope n) fun t => ∀ u ∈ t, u.isGround := by
  unfold Session.schema?
  cases hlookup : scope.lookup ("~" ++ n) with
  | error e => exact (final_of_lookup hlookup).2
  | ok found =>
    dsimp only [Bind.bind, Except.bind]
    split
    · next t ht =>
      obtain ⟨d, rfl, hd⟩ := Option.bind_eq_some_iff.1 ht
      simpa [Definite, pure, Except.pure, Val.isGround] using h.ground_val hlookup _ hd
    · simp [Definite, pure, Except.pure]

lemma parallel_refsIn {t : Ty} (h : W.Scopes scope scope') (hs : W.Tracks s s') (ht : t.isGround) :
    W.Parallel (Session.refsIn scope t) (Session.refsIn scope' t) s s' fun r r' _ _ => r' = r ∧
    ∀ u ∈ r, u.isGround := by
  have hfind : Session.schema? scope' = Session.schema? scope := funext h.schema?_eq
  have hground := Session.ground_resolveRefs h.ground_schema? t ht
  unfold Session.refsIn
  rw [hfind]
  refine .ofExcept hs ?_
  cases hr : Session.resolveRefs (Session.schema? scope) t with
  | error e =>
    rw [hr] at hground
    exact ⟨rfl, fun el hel => absurd hel (hground el)⟩
  | ok r =>
    rw [hr] at hground
    exact ⟨rfl, hground⟩

end Scopes

end Copying

end Resolvent
