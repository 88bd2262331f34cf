import Resolvent.Proofs.Session.Regime
import Mathlib.Data.List.TakeDrop

/-!
# Resolving arguments

What operators are written with, one level above the operations on a session: searching over types,
looking names up, grouping arguments, and resolving arguments by steps that handle elements of a
depth.
-/

namespace Resolvent

open Run
open List hiding take

namespace Layout

lemma final_unexpected (st : Store) (i : Nat) : (unexpected st i).Final := by
  unfold unexpected
  split <;> exact ⟨rfl, nofun⟩

lemma mem_of_mem_takeRun {st : Store} {k : Class} {ids : List Nat} {i : Nat}
    (h : i ∈ (takeRun st k ids).1 ∨ i ∈ (takeRun st k ids).2) : i ∈ ids := by
  rw [takeRun, span_eq_takeWhile_dropWhile] at h
  exact h.elim (fun hi => ( takeWhile_prefix _).subset hi) fun hi => (dropWhile_suffix _).subset hi

lemma mem_of_mem_takeDecls {st : Store} {ids : List Nat} {i : Nat}
    (h : i ∈ (takeDecls st ids).1 ∨ i ∈ (takeDecls st ids).2) : i ∈ ids := by
  have hrun (hi : i ∈ (takeRun st .decl ids).1 ∨ i ∈ (takeRun st .decl ids).2) : i ∈ ids :=
    mem_of_mem_takeRun hi
  revert h
  fun_cases takeDecls st ids <;> grind

lemma whole_hint {p : Param} (h : p.2.Whole) : (hint p).Whole := by
  unfold hint
  split
  · exact h
  · exact .plain rfl
  · exact .plain rfl
  · cases he : p.2.elem? with
    | none => exact .plain rfl
    | some t => exact h.elem? he

end Layout

/-! ## Failures of look-ups -/

section

variable {α β : Type} {scope : Scope} {e : Failure} {find : String → Except Failure (Option Ty)}

lemma final_of_lookup {name : String} (h : scope.lookup name = .error e) : e.Final := by
  unfold Scope.lookup at h
  split at h
  · split at h
    · cases h
    · cases h
      exact ⟨rfl, nofun⟩
  · cases h

lemma final_of_define {defs : List (String × Definition)} {name : String} {d : Definition}
    (h : Frame.define defs name d = .error e) : e.Final := by
  unfold Frame.define at h
  split at h
  · cases h
    exact ⟨rfl, nofun⟩
  · cases h

lemma final_of_bind {x : Except Failure α} {k : α → Except Failure β} (h : x >>= k = .error e)
    (hx : ∀ e, x = .error e → e.Final) (hk : ∀ a e, k a = .error e → e.Final) : e.Final := by
  cases x with
  | ok a => exact hk a e h
  | error _ =>
    cases h
    exact hx e rfl

lemma final_of_capture {names : List String} (h : Operator.capture scope names = .error e) :
    e.Final := by
  induction names generalizing e with
  | nil => cases h
  | cons name names ih =>
    refine final_of_bind h (fun _ => final_of_lookup) fun found e h =>
      final_of_bind h (fun _ => ih) fun rest e h => ?_
    cases found with
    | none => cases h
    | some d =>
      dsimp only at h
      split at h <;> cases h

mutual

lemma final_of_resolveRefs (hfind : ∀ n e, find n = .error e → e.Final) :
    ∀ t e, Session.resolveRefs find t = .error e → e.Final
  | .plain k, e, h => by
    unfold Session.resolveRefs at h
    split at h
    · exact final_of_bind h (hfind "") fun _ _ h => by cases h
    · cases h
  | .detailed k name ps cs, e, h => by
    unfold Session.resolveRefs at h
    split at h
    · exact final_of_bind h (hfind name) fun _ _ h => by cases h
    · exact final_of_bind h (final_of_resolveParamRefs hfind ps) fun _ _ h => by cases h

lemma final_of_resolveParamRefs (hfind : ∀ n e, find n = .error e → e.Final) :
    ∀ ps e, Session.resolveParamRefs find ps = .error e → e.Final
  | [], _, h => by cases h
  | (n, t) :: ps, e, h => by
    refine final_of_bind h (final_of_resolveRefs hfind t) fun _ e h => ?_
    exact final_of_bind h (final_of_resolveParamRefs hfind ps) fun _ _ h => by cases h

end

end

namespace Run

variable {α β : Type}

def onStore (m : Layout.Arrange α) : Run α := do
  let s ← get
  let (r, store) := StateT.run (ExceptT.run m) s.store
  set { s with store }
  ofExcept r

lemma onStore_bind (m : Layout.Arrange α) (k : α → Layout.Arrange β) :
    onStore (m >>= k) = onStore m >>= fun a => onStore (k a) := by
  funext s
  change (onStore (m >>= k)).exec s = (onStore m >>= fun a => onStore (k a)).exec s
  rw [exec_bind]
  unfold onStore
  simp only [exec_get_bind, ExceptT.run_bind, StateT.run_bind]
  rcases hm : StateT.run (ExceptT.run m) s.store with ⟨_ | a, st⟩ <;> rfl

end Run

namespace Regime

variable {G : Regime} {α β ι : Type} {s s' : Session} {P : α → Store → Prop} {Q : β → Store → Prop}
  {l n id : Nat} {span : Span}
  {st st' : Store} {ids waiting args : List Nat} {scope : Scope} {name : String}

/-! ## Searching over types -/

def Ending (m : Solve α) : Prop :=
  ∀ σ : Subst, σ.Sound → (m.exec σ).2.Sound ∧ (m.exec σ).1 ≠ .error .exhausted

lemma Upholds.solve {m : Solve α} {Q : α → Prop} (h : G.Admits s) (hm : Ending m)
    (hwhole : G.whole → m.Finds s.subst Q) :
    G.Upholds n (fun _ : ι => Run.solve m span) s fun a _ => G.whole → Q a := by
  have hs : G.Admits { s with subst := (m.exec s.subst).2 } :=
    ⟨h.catalog, h.orderly, fun hw => ⟨(h.whole hw).store, (hwhole hw).1, (h.whole hw).catalog⟩,
      fun hb => (hm _ (h.sound hb)).1⟩
  refine of_exec (exec_solve m span s) ⟨.refl _, hs, rfl, fun hσ => (hm _ hσ).1⟩ ?_
  cases hr : (m.exec s.subst).1 with
  | ok a => exact fun hw => (hwhole hw).2 a hr
  | error e =>
    refine ⟨fun hb => ?_, nofun⟩
    have hne := (hm _ (h.sound hb)).2
    rw [hr] at hne
    cases e with
    | exhausted => exact absurd rfl hne
    | _ => rfl

lemma upholds_unify {a b : Ty} (h : G.Admits s) (ha : G.whole → a.Whole) (hb : G.whole → b.Whole) :
    G.Upholds n (fun _ : ι => solve (Subst.unify a b) span) s fun _ _ => True := by
  have hending : Ending (Subst.unify a b) := fun σ hσ =>
    have hpost := (hσ.within_support [a, b]).post_unify (Subst.over_support (by simp))
      (Subst.over_support (by simp))
    ⟨hpost.grown.within.sound, hpost.ne_exhausted⟩
  exact (Upholds.solve h hending fun hw => Subst.finds_unify (h.whole hw).subst (ha hw)
    (hb hw)).mono (fun _ _ _ => trivial)

lemma upholds_choose {t : Ty} (h : G.Admits s) (ht : G.whole → t.Whole) :
    G.Upholds n (fun _ : ι => solve (Subst.choose t) span) s fun u _ => G.whole → u.Whole := by
  have hending : Ending (Subst.choose t) := fun σ hσ =>
    have hpost := (hσ.within_support [t]).post_choose (Subst.over_support (by simp))
    ⟨hpost.grown.within.sound, hpost.ne_exhausted⟩
  exact .solve h hending fun hw => Subst.finds_choose (h.whole hw).subst (ht hw)

lemma upholds_refsIn {t : Ty} (h : G.Admits s) :
    G.Upholds n (fun _ : ι => Session.refsIn scope t) s fun r _ =>
    Session.resolveRefs (Session.schema? scope) t = .ok r := by
  refine .ofExcept h (final_of_resolveRefs (fun name e h => ?_) t)
  refine final_of_bind h (fun _ => final_of_lookup) fun d e h => ?_
  split at h <;> cases h

lemma upholds_freshStamp (h : G.Admits s) :
    G.Upholds n (fun _ : ι => freshStamp) s fun _ _ => True :=
  have hs : G.Admits { s with nextStamp := s.nextStamp + 1 } :=
    ⟨h.catalog, h.orderly, fun hw => ⟨(h.whole hw).store, (h.whole hw).subst, (h.whole hw).catalog⟩,
      h.sound⟩
  .of_exec rfl ⟨.refl _, hs, rfl, fun hs => hs⟩ trivial

/-! ## Grouping arguments -/

section

open Layout

lemma Upholds.onStore_bind {m : Arrange α} {k : α → Arrange β}
    (h : G.Upholds n (fun _ : ι => onStore m) s P)
    (hk : ∀ a s', G.Grows s s' → P a s'.store → G.Upholds n (fun _ : ι => onStore (k a)) s' Q) :
    G.Upholds n (fun _ : ι => onStore (m >>= k)) s Q := by
  rw [Run.onStore_bind]
  exact h.bind hk

lemma Upholds.onStore_get_bind {k : Store → Arrange α}
    (h : G.Upholds n (fun _ : ι => onStore (k s.store)) s P) :
    G.Upholds n (fun _ : ι => onStore (get >>= k)) s P :=
  h

lemma upholds_copyDecls (h : G.Admits s) (hargs : ∀ a ∈ args, G.Within l s.store a) :
    G.Upholds n (fun _ : ι => onStore (copyDecls args ids)) s fun copies st => ∀ i ∈ copies,
    G.Within (l + 1) st i := by
  induction ids generalizing s with
  | nil => exact .pure h (by simp)
  | cons id ids ih =>
    have hcopy : G.Upholds n
      (fun _ : ι => alloc (.decl (declParts s.store id).1 args) (s.store.span id)) s
        fun copy st => G.Within (l + 1) st copy ∧ copy = s.store.size ∧
          st = (s.store.alloc (.decl (declParts s.store id).1 args) (s.store.span id)).2 :=
          .alloc h (.decl hargs)
    refine Upholds.bind (k := fun _ copy =>
      onStore (copyDecls args ids >>= fun copies => pure (copy :: copies))) hcopy ?_
    rintro copy s₁ hs₁ ⟨hcopy, -⟩
    refine .onStore_bind (ih hs₁.admits (hs₁.within hargs)) fun copies s₂ hs₂ hcopies =>
      .pure hs₂.admits ?_
    simpa using ⟨hcopy.kept hs₂.store, hcopies⟩

lemma upholds_carryForward (h : G.Admits s) (hids : ∀ i ∈ ids, G.Within l s.store i) :
    G.Upholds n (fun _ : ι => onStore (carryForward waiting ids)) s fun decls st => ∀ i ∈ decls,
    G.Within l st i := by
  induction ids generalizing s waiting with
  | nil =>
    cases waiting with
    | nil => exact .pure h (by simp)
    | cons id waiting => exact .throw_final h ⟨rfl, by simp⟩
  | cons id ids ih =>
    obtain ⟨hid, hrest⟩ := forall_mem_cons.1 hids
    unfold carryForward
    refine .onStore_get_bind ?_
    split
    · exact ih h hrest
    · next name arg hparts =>
      have harg : G.Within (l - 1) s.store arg := by
        revert hparts
        fun_cases declParts s.store id with
        | case1 name args hc => exact fun hparts => hid.child h hc (by simp_all [Content.children])
        | case2 => simp
      refine .onStore_bind (upholds_copyDecls h (by simpa using harg)) fun copies s₁ hs₁ hcopies =>
        ?_
      refine .onStore_bind (ih hs₁.admits (hs₁.within hrest)) fun decls s₂ hs₂ hdecls =>
        .pure hs₂.admits fun i hi => ?_
      rcases mem_append.1 hi with hi | hi
      · exact hid.raise ((hcopies i hi).kept hs₂.store)
      · rcases mem_cons.1 hi with rfl | hi
        · exact hid.kept (hs₁.trans hs₂).store
        · exact hdecls i hi
    · exact .throw_final h ⟨rfl, by simp⟩

lemma upholds_take (h : G.Admits s) (hids : ∀ i ∈ ids, G.Within l s.store i) :
    G.Upholds n (fun _ : ι => onStore (take name ids)) s fun p st => ∀ i, i ∈ p.1 ∨ i ∈ p.2 →
    G.Within l st i := by
  have hrun (k : Layout.Class) (i : Nat) (hi : i ∈ (takeRun s.store k ids).1 ∨
    i ∈ (takeRun s.store k ids).2) : G.Within l s.store i := hids i (mem_of_mem_takeRun hi)
  have hdecls (i : Nat) (hi : i ∈ (takeDecls s.store ids).1 ∨ i ∈ (takeDecls s.store ids).2) :
    G.Within l s.store i := hids i (mem_of_mem_takeDecls hi)
  refine .onStore_get_bind ?_
  split
  · exact .pure h (hrun .ordinary)
  · exact .pure h (hrun .tag)
  · refine .pure h fun i hi => ?_
    have htags {ids : List Nat} (hi : i ∈ (takeRun s.store .tag ids).1 ∨
      i ∈ (takeRun s.store .tag ids).2) : i ∈ ids := mem_of_mem_takeRun hi
    rw [mem_append, or_assoc] at hi
    exact hrun .ordinary i (hi.imp_right htags)
  · exact .pure h hdecls
  · refine .onStore_bind (upholds_carryForward h fun i hi => hdecls i (.inl hi))
      fun decls s₁ hs₁ hd => .pure hs₁.admits ?_
    exact fun i hi => hi.elim (hd i) fun hi => (hdecls i (.inr hi)).kept hs₁.store
  · cases ids with
    | nil => exact .pure h (by simp)
    | cons id rest =>
      dsimp only
      split
      · exact .pure h fun i hi => hids i (by simpa using hi)
      · split
        · exact .pure h fun i hi => hids i (by simpa using hi)
        · exact .throw_final h (final_unexpected _ _)

lemma upholds_arrange (params : List Param) (h : G.Admits s)
    (hids : ∀ i ∈ ids, G.Within l s.store i) : G.Upholds n (fun _ : ι => Run.arrange params ids) s
      fun groups st => groups.length = params.length ∧ ∀ a ∈ groups.flatten, G.Within l st a := by
  change G.Upholds n (fun _ : ι => onStore (Layout.arrange params ids)) s _
  induction params generalizing s ids with
  | nil =>
    cases ids with
    | nil => exact .pure h (by simp)
    | cons id ids => exact .throw_final h (final_unexpected _ _)
  | cons p ps ih =>
    refine .onStore_bind (upholds_take h hids) ?_
    rintro ⟨group, rest⟩ s₁ hs₁ htaken
    dsimp only
    split
    · exact .throw_final hs₁.admits ⟨rfl, nofun⟩
    · refine .onStore_bind (ih hs₁.admits fun i hi => htaken i (.inr hi)) fun groups s₂ hs₂ ⟨hlen,
        hgroups⟩ => ?_
      refine .pure hs₂.admits ⟨by simp [hlen], fun a ha => ?_⟩
      rcases mem_append.1 ha with ha | ha
      · exact (htaken a (.inl ha)).kept hs₂.store
      · exact hgroups a ha

end

/-! ## Arguments -/

/-- The steps of the family resolve elements alike and as the regime asks, down to the depth. -/
def Handles (G : Regime) (R : ι → Steps) (n : Nat) : Prop :=
  ∀ m ≤ n, ∀ (s : Session) (scope : Scope) (id : Nat) (hint : Ty), G.Admits s →
    (G.whole → scope.Whole) → (G.whole → hint.Whole) → G.Within m s.store id →
    G.Upholds m (fun i => (R i).resolve scope id hint) s
      fun r st => G.Within m st r ∧ G.done scope st r ∧ ∀ t, st.val? r = some (.typ t) →
      G.typed scope s.store id

/-- Elements that have been tried in a scope: they are there, and done if the flag is set. -/
structure Tried (G : Regime) (n : Nat) (scope : Scope) (st : Store) (rs : List Nat) (ok : Bool) :
    Prop where
  within : ∀ r ∈ rs, G.Within n st r
  done : ok → ∀ r ∈ rs, G.done scope st r

namespace Tried

variable {r : Nat} {rs rs' : List Nat} {ok ok' : Bool}

lemma nil : G.Tried n scope st [] ok := ⟨by simp, by simp⟩

lemma kept (h : G.Tried n scope st rs ok) (hk : st.Kept st') : G.Tried n scope st' rs ok :=
  ⟨fun r hr => (h.within r hr).kept hk, fun hok r hr => G.kept (h.done hok r hr) hk⟩

lemma append (h : G.Tried n scope st rs ok) (h' : G.Tried n scope st rs' ok') :
    G.Tried n scope st (rs ++ rs') (ok && ok') := by
  constructor
  · exact forall_mem_append.2 ⟨h.within, h'.within⟩
  · intro hok
    simp only [Bool.and_eq_true] at hok
    exact forall_mem_append.2 ⟨h.done hok.1, h'.done hok.2⟩

lemma singleton (hr : G.Within n st r) (hdone : ok → G.done scope st r) :
    G.Tried n scope st [r] ok :=
  ⟨by simpa using hr, by simpa using hdone⟩

lemma subset (h : G.Tried n scope st rs ok) (hsub : rs' ⊆ rs) : G.Tried n scope st rs' ok :=
  ⟨fun r hr => h.within r (hsub hr), fun hok r hr => h.done hok r (hsub hr)⟩

lemma lt_and_done (h : G.Tried n scope st rs ok) (hok : ok) (hk : st.Kept st') :
    ∀ a ∈ rs, a < st'.size ∧ G.done scope st' a :=
  fun a ha => ⟨((h.kept hk).within a ha).lt_size, (h.kept hk).done hok a ha⟩

end Tried

lemma whole_void : G.whole → Ty.void.Whole := fun _ => .plain rfl

variable {R : ι → Steps} {hint : Ty} {c : Call}

lemma upholds_residual {e : Failure} (h : G.Admits s) (he : G.bounded → e.isExhausted = false)
    (hel : ∀ el, e = .unresolved el → G.Within n s.store el) :
    G.Upholds n (fun _ : ι => residual e) s fun el st => G.Within n st el := by
  have hthrow : G.Upholds n (fun _ : ι => (throw e : Run Nat)) s fun el st => G.Within n st el :=
    .throw h he hel
  cases e with
  | unresolved el => exact .get_bind (.ite (fun _ => .pure h (hel el rfl)) fun _ => hthrow)
  | _ => exact hthrow

lemma upholds_needArg {i : Nat} {param : String} (h : G.Admits s) :
    G.Upholds n (fun _ : ι => needArg c i param) s fun a _ => c.arg? i = some a := by
  unfold needArg
  split
  · next ha => exact .pure h ha
  · exact .throw_final h ⟨rfl, nofun⟩

lemma upholds_declArg {decl : Nat} (h : G.Admits s) :
    G.Upholds n (fun _ : ι => declArg decl) s fun p _ => s.store.content decl =
    .decl p.1 [p.2] := by
  refine .get_bind ?_
  split
  · next hc => exact .pure h hc
  · exact .throw_final h ⟨rfl, nofun⟩
  · exact .throw_final h ⟨rfl, nofun⟩

lemma upholds_finish {groups : List (List Nat)} {ok : Bool} (h : G.Admits s)
    (hid : G.Within (n + 1) s.store id)
    (hc : G.whole → c.Whole) (harity : G.orderly → G.catalog.HasBuiltins → c.callable.Takes groups)
    (hargs : ∀ a ∈ groups.flatten, G.Within n s.store a) :
    G.Upholds (n + 1) (fun _ : ι => finish id c groups ok) s fun r st => G.Within (n + 1) st r ∧
    ok ∧ s.store.Kept st ∧
      (s.store.content id = .call c → st.content r = .call { c with groups }) := by
  have hfinished {s' : Session} {next : Nat} (hs' : G.Grows s s')
    (hnext : G.Within (n + 1) s'.store next)
      (hcall : s.store.content id = .call c → s'.store.content next = .call { c with groups }) :
      G.Upholds (n + 1) (fun _ : ι => if ok then pure next else throw (.unresolved next)) s'
      fun r st =>
        G.Within (n + 1) st r ∧ ok ∧ s.store.Kept st ∧
          (s.store.content id = .call c → st.content r = .call { c with groups }) :=
    .ite (fun hok => .pure hs'.admits ⟨hnext, hok, hs'.store, hcall⟩) fun _ =>
      .throw_unresolved hs'.admits hnext
  refine .ite (fun hsame => .pure_bind ?_) fun _ =>
    .spanOf_bind (.bind (.alloc h (.call hargs harity ?_)) ?_)
  · subst hsame
    exact hfinished (.refl h) hid fun hc => by cases c; exact hc
  · exact fun hw => ⟨(hc hw).callable, (hc hw).sig⟩
  · rintro _ s' hs' ⟨hnext, rfl, hst⟩
    exact hfinished hs' hnext fun _ => by simp [hst]

section

variable (hR : G.Handles R n) (hscope : G.whole → scope.Whole)
include hR hscope

lemma upholds_resolveOrResidual (h : G.Admits s) (hhint : G.whole → hint.Whole)
    (hid : G.Within l s.store id) (hl : l ≤ n) :
    G.Upholds l (fun i => resolveOrResidual (R i) scope id hint) s fun p st =>
    G.Tried l scope st [p.1] p.2 := by
  refine .attempt_bind (hR l hl s scope id hint h hscope hhint hid) fun r s₁ hs₁ hr => ?_
  cases r with
  | ok r => exact .pure hs₁.admits (.singleton hr.1 fun _ => hr.2.1)
  | error e =>
    exact .bind (upholds_residual hs₁.admits hr.1 hr.2) fun el s₂ hs₂ hel =>
      .pure hs₂.admits (.singleton hel (by simp))

lemma upholds_resolveAll (h : G.Admits s) (hhint : G.whole → hint.Whole)
    (hids : ∀ i ∈ ids, G.Within n s.store i) :
    G.Upholds n (fun i => resolveAll (R i) scope hint ids) s fun p st =>
    G.Tried n scope st p.1 p.2 := by
  induction ids generalizing s with
  | nil => exact .pure h .nil
  | cons id ids ih =>
    obtain ⟨hid, hrest⟩ := forall_mem_cons.1 hids
    refine .bind (upholds_resolveOrResidual hR hscope h hhint hid le_rfl) ?_
    rintro ⟨r, ok⟩ s₁ hs₁ hr
    refine .bind (ih hs₁.admits (hs₁.within hrest)) ?_
    rintro ⟨rs, oks⟩ s₂ hs₂ hrs
    exact .pure hs₂.admits ((hr.kept hs₂.store).append hrs)

lemma upholds_resolveGroups (h : G.Admits s) (hc : G.whole → c.Whole)
    (hargs : ∀ a ∈ c.groups.flatten, G.Within n s.store a)
    (is : List Nat) : G.Upholds n (fun i => resolveGroups (R i) scope c is) s
      fun p st => p.1.length = is.length ∧ G.Tried n scope st p.1.flatten p.2 := by
  induction is generalizing s with
  | nil => exact .pure h ⟨rfl, .nil⟩
  | cons i is ih =>
    have hhint (hw : G.whole) : ((c.typ.args[i]?.map Layout.hint).getD .void).Whole := by
      cases hp : c.typ.args[i]? with
      | none => exact .plain rfl
      | some p =>
        rw [Option.map_some, Option.getD_some]
        exact Layout.whole_hint ((hc hw).typ.part (dropLast_subset _ (mem_of_getElem? hp)))
    refine .bind (upholds_resolveAll hR hscope h hhint fun a ha =>
      hargs a (c.mem_flatten_of_mem_group ha)) ?_
    rintro ⟨g, ok⟩ s₁ hs₁ hg
    refine .bind (ih hs₁.admits (hs₁.within hargs)) ?_
    rintro ⟨gs, oks⟩ s₂ hs₂ ⟨hlen, hgs⟩
    exact .pure hs₂.admits ⟨by simp [hlen], (hg.kept hs₂.store).append hgs⟩

lemma upholds_resolveLetBody {result : Ty} (h : G.Admits s) (hresult : G.whole → result.Whole)
    (hids : ∀ i ∈ ids, G.Within n s.store i) :
    G.Upholds n (fun i => Operator.resolveLetBody (R i) scope result ids) s fun p st =>
    G.Tried n scope st p.1 p.2 := by
  induction ids generalizing s with
  | nil => exact .pure h .nil
  | cons id ids ih =>
    obtain ⟨hid, hrest⟩ := forall_mem_cons.1 hids
    have hhint (hw : G.whole) : (if ids.isEmpty then result else .void).Whole := by
      split
      · exact hresult hw
      · exact whole_void hw
    refine .bind (upholds_resolveOrResidual hR hscope h hhint hid le_rfl) ?_
    rintro ⟨r, ok⟩ s₁ hs₁ hr
    refine .bind (ih hs₁.admits (hs₁.within hrest)) ?_
    rintro ⟨rs, oks⟩ s₂ hs₂ hrs
    exact .pure hs₂.admits ((hr.kept hs₂.store).append hrs)

end

end Regime

end Resolvent
