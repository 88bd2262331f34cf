import Resolvent.Proofs.Independence.Forms

/-!
# Parts of a call

A call is laid out over elements that are still as they were read.
-/

namespace Resolvent

open Run Session Operator List Bool

/-! ## Forms in a store -/

namespace Form

variable {operator : String → Option Callable}

lemma areFirstOrder_iff {fs : List Form} : areFirstOrder operator fs ↔
    ∀ f ∈ fs, f.isFirstOrder operator := by
  induction fs with
  | nil => simp [areFirstOrder]
  | cons f fs ih => simp [areFirstOrder, ih]

mutual

lemma isRaw_of_isFirstOrder : (f : Form) → f.isFirstOrder operator → f.isRaw
  | literal _ _, _ | tag _ none _, _ => rfl
  | name n d _, h => (and_eq_true_iff.1 h).2
  | tag n (some f) _, h => isRaw_of_isFirstOrder f h
  | decl n args _, h => areRaw_of_areFirstOrder args (and_eq_true_iff.1 h).2
  | expr [] _, _ => rfl
  | expr (head :: rest) _, h => by
    obtain ⟨hhead, hrest⟩ := and_eq_true_iff.1 h
    refine and_eq_true_iff.2 ⟨?_, areRaw_of_areFirstOrder rest hrest⟩
    rcases or_eq_true_iff.1 hhead with hhead | hhead
    · unfold isOperator at hhead
      split at hhead
      · rfl
      · cases hhead
    · exact isRaw_of_isFirstOrder head hhead

lemma areRaw_of_areFirstOrder : (fs : List Form) → areFirstOrder operator fs → areRaw fs
  | [], _ => rfl
  | f :: fs, h =>
    have hfs := and_eq_true_iff.1 h
    and_eq_true_iff.2 ⟨isRaw_of_isFirstOrder f hfs.1, areRaw_of_areFirstOrder fs hfs.2⟩

end

end Form

namespace Store

variable {st st' : Store} {id : Nat} {n : String} {f g : Form} {span : Span}

/-- The elements of the form have been added to some store, the form itself under the number, and
are kept since. -/
def Holds (st : Store) (id : Nat) (f : Form) : Prop :=
  ∃ st₀ : Store, (st₀.insert f).1 = id ∧ (st₀.insert f).2.Kept st

lemma holds_insertAll (st : Store) (fs : List Form) :
    Forall₂ (fun id f => (st.insertAll fs).2.Holds id f) (st.insertAll fs).1 fs := by
  induction fs generalizing st with
  | nil => exact .nil
  | cons f fs ih => exact .cons ⟨st, rfl, kept_insertAll _ fs⟩ (ih (st.insert f).2)

lemma Kept.content_alloc {e : Content} (h : (st.alloc e span).2.Kept st') :
    st'.content (st.alloc e span).1 = e := by
  rw [alloc_fst, h.content_eq (by simp), content_alloc_size]

namespace Holds

lemma kept (h : st.Holds id f) (hk : st.Kept st') : st'.Holds id f := by
  obtain ⟨st₀, hid, hst⟩ := h
  exact ⟨st₀, hid, hst.trans hk⟩

lemma lt_size (h : st.Holds id f) : id < st.size := by
  obtain ⟨st₀, rfl, hst⟩ := h
  refine lt_of_lt_of_le ?_ hst.size_le
  cases f with
  | tag n el span => cases el <;> simp [insert]
  | _ => simp [insert]

lemma literal {v : Val} (h : st.Holds id (.literal v span)) : st.content id = .literal v := by
  obtain ⟨st₀, rfl, hst⟩ := h
  exact hst.content_alloc

lemma name {d : Option Definition} (h : st.Holds id (.name n d span)) :
    st.content id = .name n d := by
  obtain ⟨st₀, rfl, hst⟩ := h
  exact hst.content_alloc

lemma tag_none (h : st.Holds id (.tag n none span)) : st.content id = .tag n none := by
  obtain ⟨st₀, rfl, hst⟩ := h
  exact hst.content_alloc

lemma tag_some (h : st.Holds id (.tag n (some g) span)) : ∃ el, st.content id = .tag n (some el) ∧
    st.Holds el g := by
  obtain ⟨st₀, rfl, hst⟩ := h
  exact ⟨_, hst.content_alloc, st₀, rfl, .trans (.alloc _ _ _) hst⟩

lemma decl {args : List Form} (h : st.Holds id (.decl n args span)) :
    ∃ ids, st.content id = .decl n ids ∧ Forall₂ st.Holds ids args := by
  obtain ⟨st₀, rfl, hst⟩ := h
  exact ⟨_, hst.content_alloc, (holds_insertAll st₀ args).imp fun _ _ harg =>
    harg.kept (.trans (.alloc _ _ _) hst)⟩

lemma expr {items : List Form} (h : st.Holds id (.expr items span)) :
    ∃ ids, st.content id = .expr ids ∧ Forall₂ st.Holds ids items := by
  obtain ⟨st₀, rfl, hst⟩ := h
  exact ⟨_, hst.content_alloc, (holds_insertAll st₀ items).imp fun _ _ hitem =>
    hitem.kept (.trans (.alloc _ _ _) hst)⟩

lemma content_ne_call {operator : String → Option Callable} (h : st.Holds id f)
    (hf : f.isFirstOrder operator) (c : Call) : st.content id ≠ .call c := by
  cases f with
  | literal v span => simp [h.literal]
  | name n d span => simp [h.name]
  | tag n el span =>
    cases el with
    | none => simp [h.tag_none]
    | some g =>
      obtain ⟨el, hc, -⟩ := h.tag_some
      simp [hc]
  | decl n args span =>
    obtain ⟨ids, hc, -⟩ := h.decl
    simp [hc]
  | expr items span =>
    obtain ⟨ids, hc, -⟩ := h.expr
    simp [hc]
  | call c groups sig span => cases hf

end Holds

end Store

/-! ## Evaluating a form and its copy -/

namespace Copying

variable {W : Copying} {s s' : Session} {scope scope' : Scope}

lemma parallel_evalN {n fuel fuel' id : Nat} (f : Form) (h : W.Tracks s s')
    (hscope : W.Scopes scope scope') (hs : s.Orderly)
    (hf : f.isFirstOrder W.operator) (hid : s.store.Holds id f) (hop : W.Operand s.store id)
    (hn : s.store.Shallow ⊤ n id) (hfuel : n < fuel) (hfuel' : n < fuel') :
    W.Parallel (evalN fuel scope id .void) (evalN fuel' scope' (W.place id) .void) s s' Value := by
  induction n generalizing f id fuel fuel' with
  | zero => exact hn.elim
  | succ n ih =>
    obtain ⟨m, rfl⟩ : ∃ m, fuel = m + 1 := ⟨fuel - 1, by omega⟩
    obtain ⟨m', rfl⟩ : ∃ m', fuel' = m' + 1 := ⟨fuel' - 1, by omega⟩
    have hplain := h.store.plain id hop.1
    have hcopy := h.store.content_eq id hop.1
    have hleaf {e : Content} (hc : s.store.content id = e) (hres : e.isResolved)
      (hvisible : e.visible = []) :
        W.Parallel (evalN (m + 1) scope id .void) (evalN (m' + 1) scope' (W.place id) .void)
        s s' Value :=
      evaluates_recursive hfuel.le hfuel'.le .void .void h hscope ⟨hop,
        .of_leaf hc hres hvisible, hn⟩
    cases f with
    | literal v span => exact hleaf hid.literal rfl rfl
    | name name d span => exact parallel_evalStep_of (parallel_evalName hscope h hop hid.name)
    | tag name el span =>
      cases el with
      | none => exact hleaf hid.tag_none rfl rfl
      | some g =>
        obtain ⟨el, hc, hel⟩ := hid.tag_some
        rw [hc] at hplain hcopy
        refine parallel_evalStep_of (.get_bind ?_)
        rw [hc, hcopy]
        exact ih g hf hel (hplain el rfl) (hn.child hc (by simp [Content.children]))
          (by omega) (by omega)
    | decl name args span =>
      obtain ⟨ids, hc, hids⟩ := hid.decl
      rw [hc] at hplain hcopy
      refine parallel_evalStep_of (.get_bind ?_)
      rw [hc, hcopy]
      dsimp only [content]
      rw [getLast?_map]
      cases hlast : ids.getLast? with
      | none => exact .pure h ⟨rfl, rfl⟩
      | some last =>
        have hmem := mem_of_getLast? hlast
        obtain ⟨g, hg, hheld⟩ : ∃ g ∈ args, s.store.Holds last g := by
          obtain ⟨i, hi, rfl⟩ := getElem_of_mem hmem
          exact ⟨_, getElem_mem (hids.length_eq ▸ hi), hids.get hi (hids.length_eq ▸ hi)⟩
        have hfirst := Form.areFirstOrder_iff.1 (and_eq_true_iff.1 hf).2 g hg
        exact ih g hfirst hheld (hplain.2 last hmem) (hn.child hc hmem) (by omega) (by omega)
    | expr items span =>
      obtain ⟨ids, hc, -⟩ := hid.expr
      rw [hc] at hcopy
      refine parallel_evalStep_of (.get_bind ?_)
      rw [hc, hcopy]
      have hadmits := Regime.admits_complete hs False.elim
      have hresolve := (parallel_resolveN h hscope hop hn (Nat.le_of_lt_succ hfuel)
        (Nat.le_of_lt_succ hfuel') .void).and_keeps
        ((upholds_resolveN m hadmits hop.1 False.elim False.elim).keeps trivial hadmits)
      refine .bind hresolve ?_
      rintro r _ t t' hg ⟨⟨⟨rfl, hr⟩, hshallow⟩, hcomplete, -⟩
      exact evaluates_recursive (Nat.le_of_lt_succ hfuel) (Nat.le_of_lt_succ hfuel') .void .void
        hg.tracks hscope ⟨hr.operand, hcomplete, hshallow⟩
    | call c groups sig span => cases hf

end Copying

namespace Session

variable {s t : Session} {steps : Steps} {scope : Scope} {id r n : Nat} {hint : Ty} {v : Val}

/-! ## Known values -/

lemma exec_evalContent_of_val? (hv : s.store.val? r = some v) (hwhole : v.isWhole) (steps : Steps)
    (scope : Scope) (hint : Ty) : (evalContent steps scope r hint).exec s = (.ok v, s) := by
  rw [evalContent, exec_get_bind]
  unfold Store.val? at hv
  split at hv
  · next w hc =>
    cases hv
    rw [hc]
    cases v with
    | typ t =>
      have hrefs : resolveRefs (schema? scope) t = .ok (some t) :=
        resolveRefs_of_whole (by simpa [Val.isWhole] using hwhole)
      simp only [refsIn, hrefs]
      rfl
    | _ => rfl
  · next name d hc =>
    have hknown : (some d).filter (·.isKnown) = some d := by simp [Definition.isKnown, hv]
    rw [hc]
    simp only [hknown, pure_bind, hv]
    rfl
  · cases hv

lemma exec_evalN_of_val? (hv : s.store.val? r = some v) (hwhole : v.isWhole) (n : Nat)
    (scope : Scope) (hint : Ty) : (evalN (n + 1) scope r hint).exec s = (.ok v, s) := by
  rw [evalN, evalStep, exec_attempt_bind, exec_evalContent_of_val? hv hwhole]
  rfl

lemma keeps_resolveContent_mark (n : Nat) (h : s.Orderly) (hid : id < s.store.size)
    (hc : (∃ n el, s.store.content id = .tag n el) ∨ ∃ n args, s.store.content id = .decl n args) :
    Keeps (resolveContent (stepsN n) scope id) s fun r st => st.val? r = none := by
  have hs := Regime.admits_complete h False.elim
  have hb : ¬ (Regime.complete s.catalog False).bounded := Regime.not_bounded_complete
  have hR := Regime.handles_stepsN hb n 0
  have hval {st : Store} {x : Nat} (hx : (∃ n el, st.content x = .tag n el) ∨
    ∃ n args, st.content x = .decl n args) : st.val? x = none := by
    rcases hx with ⟨n, el, hx⟩ | ⟨n, args, hx⟩ <;> simp [Store.val?, hx]
  have hfinish {t : Session} {x : Nat} {ok : Bool}
    (ht : (Regime.complete s.catalog False).Grows s t) (hlt : x < t.store.size)
      (hx : t.store.val? x = none) : (Regime.complete s.catalog False).Upholds 0
      (fun _ : Unit => if ok then pure x else throw (.unresolved x)) t
        fun r st => st.val? r = none :=
    .ite (fun _ => .pure ht.admits hx) fun _ => .throw_unresolved ht.admits (.of_lt hb hlt)
  refine Regime.Upholds.keeps (n := 0) (.get_bind ?_) trivial hs
  rcases hc with ⟨n, el, hc⟩ | ⟨n, args, hc⟩
  · rw [hc]
    cases el with
    | none => exact .pure hs (hval (.inl ⟨n, none, hc⟩))
    | some el =>
      have hel : el < s.store.size := h.child_lt hc (by simp [Content.children])
      refine .bind (Regime.upholds_resolveOrResidual hR False.elim hs Regime.whole_void
        (.of_lt hb hel) le_rfl) ?_
      rintro ⟨r, ok⟩ s₁ hs₁ hr
      refine .ite (fun _ =>
        .pure_bind (hfinish hs₁ (hs₁.lt_size hid)
          (hval (.inl ⟨n, _, hs₁.store.content hc (by simp)⟩)))) fun _ => ?_
      refine .bind (.alloc (n := 0) hs₁.admits (.tag (hr.within r (by simp)))) ?_
      rintro _ s₂ hs₂ ⟨hnext, rfl, hst⟩
      exact hfinish (hs₁.trans hs₂) hnext.lt_size
        (hval (.inl ⟨n, _, by rw [hst, Store.content_alloc_size]⟩))
  · rw [hc]
    refine .bind (Regime.upholds_resolveAll hR False.elim hs Regime.whole_void fun i hi =>
      .of_lt hb (h.child_lt hc hi)) ?_
    rintro ⟨rs, ok⟩ s₁ hs₁ hr
    refine .ite (fun _ =>
      .pure_bind (hfinish hs₁ (hs₁.lt_size hid)
        (hval (.inr ⟨n, _, hs₁.store.content hc (by simp)⟩)))) fun _ => ?_
    refine .bind (.alloc (n := 0) hs₁.admits (.decl hr.within)) ?_
    rintro _ s₂ hs₂ ⟨hnext, rfl, hst⟩
    exact hfinish (hs₁.trans hs₂) hnext.lt_size
      (hval (.inr ⟨n, _, by rw [hst, Store.content_alloc_size]⟩))

lemma exec_resolveN_eq (hstore : s.store.Founded) (hsound : s.subst.Sound) (hid : id < s.store.size)
    (hn : s.store.size ≤ n) (scope : Scope) (hint : Ty) :
    (resolveN n scope id hint).exec s = (resolve scope id hint).exec s := by
  obtain ⟨x, t, hexec, -⟩ := upholds_recursive hsound (hstore.shallow hid) scope hint
  have hbudget : s.store.size ≤ stepBudget s := by
    rw [stepBudget]
    omega
  rw [resolve, exec_get_bind]
  exact (hexec ⟨_, .ofFuel hn⟩).trans (hexec ⟨_, .ofFuel hbudget⟩).symm

lemma exists_exec_resolveContent (h : (resolveStep steps scope id hint).exec s = (.ok r, t)) :
    ∃ t', (resolveContent steps scope id).exec s = (.ok r, t') ∧ t'.store = t.store := by
  have hends : Ends (resolveStep steps scope id hint) s fun x t => ∀ r, x = .ok r →
      ∃ t', (resolveContent steps scope id).exec s = (.ok r, t') ∧ t'.store = t.store := by
    rcases hcontent : (resolveContent steps scope id).exec s with ⟨x, t'⟩
    refine .attempt_bind (.of_exec hcontent ?_)
    split
    · exact .get_bind (.throw (by simp))
    · exact .throw (by simp)
    · refine .ite (fun _ => ?_) fun _ =>
        .typeOf_bind (.spanOf_bind (.solve_bind (fun _ σ _ => ?_) (by simp)))
      · rintro r ⟨⟩
        exact ⟨t', rfl, rfl⟩
      · rintro r ⟨⟩
        exact ⟨t', rfl, rfl⟩
  exact hends.at_exec h r rfl

lemma exec_resolveStep_void (h : (resolveContent steps scope id).exec s = (.ok r, t)) :
    (resolveStep steps scope id .void).exec s = (.ok r, t) := by
  rw [resolveStep, exec_attempt_bind, h]
  rfl

lemma exec_resolveN_void (h : (resolveN n scope id hint).exec s = (.ok r, t)) :
    ∃ t', (resolveN n scope id .void).exec s = (.ok r, t') ∧ t'.store = t.store := by
  cases n with
  | zero => cases h
  | succ n =>
    obtain ⟨t', hcontent, hstore⟩ := exists_exec_resolveContent h
    exact ⟨t', exec_resolveStep_void hcontent, hstore⟩

lemma exec_evalContent_typ {u w : Ty} (hc : s.store.content id = .literal (.typ u))
    (hrefs : resolveRefs (schema? scope) u = .ok (some w)) :
    (evalContent steps scope id hint).exec s = (.ok (.typ w), s) := by
  rw [evalContent, exec_get_bind]
  rw [hc]
  simp only [refsIn, hrefs]
  rfl

lemma exec_evalContent_name {name : String} {d : Definition}
    (hc : s.store.content id = .name name none)
    (hd : scope.lookup name = .ok (some d)) (hv : d.val = some v) :
    (evalContent steps scope id hint).exec s = (.ok v, s) := by
  rw [evalContent, exec_get_bind]
  rw [hc]
  have hfind : ofExcept (scope.lookup name) = (pure (some d) : Run _) := by rw [hd]; rfl
  simp only [hfind, pure_bind, hv]
  rfl

def Foretells (n : Nat) (scope : Scope) (id : Nat) (s : Session) (x : Except Failure Nat)
    (t : Session) : Prop :=
  ∀ r v, x = .ok r → t.store.val? r = some v → v.isWhole →
    ∃ t', (evalContent (stepsN (n + 1)) scope id .void).exec s = (.ok v, t')

lemma foretells_resolveContent (n : Nat) (hs : s.Orderly) (hid : id < s.store.size)
    (hcall : ∀ c, s.store.content id ≠ .call c) :
    Ends (resolveContent (stepsN n) scope id) s (Foretells n scope id s) := by
  -- Where resolving has nothing to do the value is known already.
  have hsame : Ends (pure id : Run Nat) s (Foretells n scope id s) := by
    rintro r v ⟨⟩ hv hwhole
    exact ⟨s, exec_evalContent_of_val? hv hwhole _ _ _⟩
  have herror (e : Failure) : Foretells n scope id s (.error e) s := by simp [Foretells]
  have hmark (hc : (∃ n el, s.store.content id = .tag n el) ∨ ∃ n args, s.store.content id =
    .decl n args) : Ends (resolveContent (stepsN n) scope id) s (Foretells n scope id s) := by
    refine Ends.mono (keeps_resolveContent_mark n hs hid hc) ?_
    rintro x t ⟨-, hx⟩ r v rfl hv
    cases hv.symm.trans hx
  cases hc : s.store.content id with
  | call c => exact absurd hc (hcall c)
  | tag name el => exact hmark (.inl ⟨name, el, hc⟩)
  | decl name args => exact hmark (.inr ⟨name, args, hc⟩)
  | literal w =>
    refine .get_bind ?_
    rw [hc]
    cases w with
    | typ u =>
      refine .ofExcept_bind (fun found hfound => ?_) fun e _ => herror e
      cases found with
      | none => exact .throw (herror _)
      | some w =>
        refine .ite (fun _ => hsame) fun _ => ?_
        rintro r v ⟨⟩ hv -
        replace hv : (s.store.alloc (.literal (.typ w)) (s.store.span id)).2.val? s.store.size =
          some v := hv
        rw [Store.val?, Store.content_alloc_size] at hv
        cases hv
        exact ⟨s, exec_evalContent_typ hc hfound⟩
    | _ => exact hsame
  | name name d =>
    refine .get_bind ?_
    rw [hc]
    cases d with
    | some d => exact hsame
    | none =>
      refine .ofExcept_bind (fun found hfound => ?_) fun e _ => herror e
      cases found with
      | none => exact .throw (herror _)
      | some d =>
        refine .ite (fun _ => .throw (herror _)) fun _ => ?_
        rintro r v ⟨⟩ hv -
        replace hv : (s.store.alloc (.name name (some d)) (s.store.span id)).2.val? s.store.size =
          some v := hv
        rw [Store.val?, Store.content_alloc_size] at hv
        exact ⟨s, exec_evalContent_name hc hfound hv⟩
  | expr items =>
    intro r v hr hv hwhole
    have hresolve : (resolveN (n + 1) scope id .void).exec s =
      (.ok r, ((resolveContent (stepsN n) scope id).exec s).2) :=
      exec_resolveStep_void (Prod.ext hr rfl)
    refine ⟨((resolveContent (stepsN n) scope id).exec s).2, ?_⟩
    rw [evalContent, exec_get_bind]
    rw [hc]
    rw [exec_bind_of_ok hresolve]
    exact exec_evalN_of_val? hv hwhole n scope .void

lemma eval_of_val? (hs : s.Orderly) (hsound : s.subst.Sound) (hid : id < s.store.size)
    (hcall : ∀ c, s.store.content id ≠ .call c) (hr : (resolve scope id .void).exec s = (.ok r, t))
    (hv : t.store.val? r = some v) (hwhole : v.isWhole) :
    ∃ t', (eval scope id .void).exec s = (.ok v, t') := by
  obtain ⟨n, hn⟩ : ∃ n, stepBudget s = n + 2 := ⟨4 * s.store.size + 999998, by rw [stepBudget]⟩
  have hsize : s.store.size ≤ n + 1 := by
    rw [stepBudget] at hn
    omega
  rw [← exec_resolveN_eq hs.founded hsound hid hsize] at hr
  obtain ⟨t', hcontent, hstore⟩ := exists_exec_resolveContent hr
  have hforetells := (foretells_resolveContent n hs hid hcall).at_exec hcontent
  obtain ⟨t'', heval⟩ := hforetells r v rfl (hstore ▸ hv) hwhole
  refine ⟨t'', ?_⟩
  rw [eval, exec_get_bind, hn, evalN, evalStep, exec_attempt_bind, heval]
  rfl

/-! ## Parts -/

/-- A session that goes on from another one in the same mode, with types that are sound. -/
structure Follows (s₀ s : Session) : Prop extends Grown s₀ s where
  sound : s.subst.Sound

namespace Follows

variable {s₀ : Session}

lemma refl (h : s₀.Orderly) (hsound : s₀.subst.Sound) : s₀.Follows s₀ := ⟨.refl h, hsound⟩

lemma exec {α : Type} {m : Run α} {P : α → Store → Prop} {x : Except Failure α} (h : s₀.Follows s)
    (hm : m.exec s = (x, t)) (hkeeps : Keeps m s P) : s₀.Follows t := by
  have hgrown := (Ends.at_exec hkeeps hm).1
  exact ⟨h.toGrown.trans hgrown, hgrown.subst h.sound⟩

lemma alone_eq (h : s₀.Follows s) (f : Form) : s.alone f = s₀.alone f := by
  rw [alone, alone, h.catalog, h.lenient]

end Follows

end Session

/-- Local names with values, none of which is an operator of the scope. -/
def Scope.Values (scope : Scope) (defs : List (String × Definition)) : Prop :=
  ∀ p ∈ defs, scope.operator? p.1 = none ∧ ∃ v, p.2 = .ofVal v ∧ v.isGround ∧ v.isWhole

namespace Scope.Values

variable {scope : Scope} {defs : List (String × Definition)} {W : Copying}

lemma whole (h : scope.Values defs) (hscope : scope.Whole) : Whole (.locals defs :: scope) := by
  refine .cons (fun p hp => ?_) hscope
  obtain ⟨-, v, hv, -, hwhole⟩ := h p hp
  rw [hv]
  exact Definition.whole_ofVal hwhole

lemma scopes (h : scope.Values defs) (hscope : W.Scopes scope scope)
    (hW : W.operator = scope.operator?) :
    W.Scopes (.locals defs :: scope) (.locals defs :: scope) := by
  have hlocals : W.Locals defs := by
    refine ⟨fun p hp => ?_, fun p hp => ?_⟩
    · rw [hW]
      exact (h p hp).1
    · obtain ⟨-, v, hv, hground, -⟩ := h p hp
      rw [hv]
      exact W.data_ofVal hground
  have hsame : W.locals defs = defs := by
    refine (map_congr_left fun p hp => ?_).trans defs.map_id
    obtain ⟨-, v, hv, hground, -⟩ := h p hp
    rw [hv, W.definition_ofVal hground, ← hv]
    rfl
  have hscopes := hscope.locals hlocals
  rwa [hsame] at hscopes

end Scope.Values

namespace Session

variable {s₀ s t : Session} {scope : Scope} {f : Form} {id r n : Nat} {v : Val}
  {defs : List (String × Definition)}

lemma orderly_alone (s : Session) {operator : String → Option Callable}
    (hf : f.isFirstOrder operator) : (s.alone f).Orderly :=
  (Store.added_insert (.empty _) f (Form.isRaw_of_isFirstOrder f hf)).orderly

lemma holds_alone (s : Session) (f : Form) : (s.alone f).store.Holds f.root f := ⟨{}, rfl, .refl _⟩

section

variable (hcatalog : s₀.catalog.HasBuiltins) (hscope : scope.FirstOrder) (hliteral : scope.Literal)
  (hf : f.isFirstOrder scope.operator?) (hid : s₀.store.Holds id f) (hs : s₀.Follows s)
include hcatalog hscope hliteral hf hid hs

lemma exists_tracks_part (hdefs : scope.Values defs) :
    ∃ W : Copying, W.operator = scope.operator? ∧ W.literal ∧ W.Tracks (s₀.alone f) s ∧
      W.Scopes (.locals defs :: scope) (.locals defs :: scope) ∧
      W.Operand (s₀.alone f).store f.root ∧ W.place f.root = id := by
  obtain ⟨st, rfl, hk⟩ := hid
  have horderly : (s.alone f).Orderly := orderly_alone s hf
  obtain ⟨W, hW, hlit, htracks, hscopes, hop, hplace⟩ :=
    exists_tracks_alone True (hs.catalog ▸ hcatalog) hscope
    (fun _ => hliteral) hf rfl horderly (hk.trans hs.store) hs.sound
  rw [hs.alone_eq] at htracks hop
  exact ⟨W, hW, hlit ▸ trivial, htracks, hdefs.scopes hscopes hW, hop, hplace⟩

lemma size_alone_le : (s₀.alone f).store.size ≤ s.store.size := by
  have hnone : scope.Values [] := by simp [Scope.Values]
  obtain ⟨W, -, -, htracks, -⟩ := exists_tracks_part hcatalog hscope hliteral hf hid hs hnone
  exact htracks.store.place_size ▸ W.mono.le_apply

lemma outcome_part (hdefs : scope.Values defs) (hn : (s₀.alone f).store.size < n) :
    outcome (evalN n (.locals defs :: scope) id .void) s =
    outcome (eval (.locals defs :: scope) f.root .void) (s₀.alone f) := by
  obtain ⟨W, hW, -, htracks, hscopes, hop, rfl⟩ :=
    exists_tracks_part hcatalog hscope hliteral hf hid hs hdefs
  have horderly : (s₀.alone f).Orderly := orderly_alone s₀ hf
  have hbudget : (s₀.alone f).store.size < stepBudget (s₀.alone f) := by
    rw [stepBudget]
    omega
  have heval := Copying.parallel_evalN f htracks hscopes horderly (hW ▸ hf) (holds_alone s₀ f) hop
    (horderly.founded.shallow hop.1) hbudget hn
  rw [outcome_eq heval fun _ _ _ _ hv => hv.1, eval, outcome, outcome, exec_get_bind]

lemma known_part (hdefs : scope.Values defs) (hn : (s₀.alone f).store.size ≤ n)
    (hr : (resolveN n (.locals defs :: scope) id .void).exec s = (.ok r, t))
    (hv : t.store.val? r = some v) (hwhole : v.isWhole) :
    v.isGround ∧ t.declared r true = .ofVal v ∧
    outcome (eval (.locals defs :: scope) f.root .void) (s₀.alone f) = .ok v := by
  obtain ⟨W, -, hlit, htracks, hscopes, hop, rfl⟩ :=
    exists_tracks_part hcatalog hscope hliteral hf hid hs hdefs
  have horderly : (s₀.alone f).Orderly := orderly_alone s₀ hf
  obtain ⟨hgrown, hends⟩ :=
    Copying.parallel_resolveN htracks hscopes hop (horderly.founded.shallow hop.1) le_rfl hn .void
  rw [W.ty_void, hr] at hgrown hends
  have hsame := exec_resolveN_eq horderly.founded
    (.empty : (s₀.alone f).subst.Sound) hop.1 le_rfl (.locals defs :: scope) .void
  rcases hr₀ : (resolveN (s₀.alone f).store.size (.locals defs :: scope) f.root .void).exec
    (s₀.alone f) with ⟨e | r₀, t₀⟩ <;> rw [hr₀] at hgrown hends hsame
  · exact hends.elim
  · obtain ⟨⟨rfl, htyped⟩, -⟩ := hends
    rw [hgrown.tracks.store.val?_eq htyped.operand.1] at hv
    have hground := hgrown.tracks.store.ground_val? htyped.operand hv
    have hdeclared : t₀.declared r₀ true = .ofVal v := by
      have hcallable := (hgrown.tracks.store.callable?_of_operand htyped.operand).1
      simp only [declared, ↓reduceIte, hgrown.tracks.typeOf_of_val? hlit htyped.operand hv,
        hv, hcallable]
      rw [Definition.ofVal_of_isGround hground]
    obtain ⟨t', heval⟩ :=
      eval_of_val? horderly .empty hop.1 ((holds_alone s₀ f).content_ne_call hf)
        hsame.symm hv hwhole
    refine ⟨hground, ?_, ?_⟩
    · rw [(Copying.definition_declared hgrown.tracks htyped.operand fun _ => htyped).1, hdeclared,
        W.definition_ofVal hground]
    · rw [outcome, heval]
      rfl

end

end Session

end Resolvent
