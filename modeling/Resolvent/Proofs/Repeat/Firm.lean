import Resolvent.Proofs.Repeat.Steady

/-!
# Elements that resolving leaves alone

`Firm` says of an element that resolving it once more gives the element itself or fails: in every
later session, in every scope like the one it was resolved in.
-/

namespace Resolvent

open Run

/-! ## Scopes that are alike -/

namespace Definition

def untyped (d : Definition) : Definition := { d with typ := .void }

end Definition

def untypedAll (defs : List (String × Definition)) : List (String × Definition) :=
  defs.map fun p => (p.1, p.2.untyped)

namespace Frame

variable {defs : List (String × Definition)} {n : String}

lemma named?_untypedAll : named? (untypedAll defs) n = (named? defs n).map Definition.untyped := by
  simp [named?, untypedAll, Function.comp_def]

lemma get?_locals_untypedAll :
    (locals (untypedAll defs)).get? n = ((locals defs).get? n).map Definition.untyped :=
  named?_untypedAll

lemma get?_params_untypedAll :
    (params (untypedAll defs)).get? n = ((params defs).get? n).map Definition.untyped := by
  unfold get?
  dsimp only
  split
  · rfl
  · simp [untypedAll, Function.comp_def]
  · exact named?_untypedAll

end Frame

namespace Scope

variable {scope scope' : Scope} {n : String}

lemma lookup_cons_of_sigil {sigil : Sigil} (f : Frame) (scope : Scope)
    (hn : Sigil.of? n = some sigil) :
    lookup (f :: scope) n = if f.supports sigil then .ok (f.get? n) else lookup scope n := by
  simp only [lookup, hn, List.find?_cons]
  cases f.supports sigil <;> rfl

lemma lookup_cons_of_plain (f : Frame) (scope : Scope) (hn : Sigil.of? n = none) :
    lookup (f :: scope) n = ((f.get? n).map fun d => .ok (some d)).getD (lookup scope n) := by
  simp only [lookup, hn, List.findSome?_cons]
  cases f.get? n <;> rfl

def untyped (scope : Scope) (n : String) : Except Failure (Option Definition) :=
  (scope.lookup n).map (Option.map Definition.untyped)

lemma map_capture_cons (scope : Scope) (n : String) (names : List String) :
    (Operator.capture scope (n :: names)).map (·.2) = (do
      let known ← (scope.untyped n).map (Option.map Definition.isKnown)
      let waits ← (Operator.capture scope names).map (·.2)
      return waits || known == some false) := by
  rw [Operator.capture, untyped]
  cases scope.lookup n with
  | error e => rfl
  | ok found =>
    cases Operator.capture scope names with
    | error e => rfl
    | ok p =>
      cases found with
      | none => exact congrArg Except.ok (Bool.or_false p.2).symm
      | some d =>
        have hknown : d.untyped.isKnown = d.isKnown := rfl
        cases hd : d.isKnown <;> simp [Except.map, bind, Except.bind, hknown, hd, pure, Except.pure]

def Like (scope scope' : Scope) : Prop := ∀ n, scope.untyped n = scope'.untyped n

namespace Like

lemma refl (scope : Scope) : Like scope scope := fun _ => rfl

lemma cons {f f' : Frame} (h : Like scope scope') (hsupports : f.supports = f'.supports)
    (hget : ∀ n, (f.get? n).map Definition.untyped = (f'.get? n).map Definition.untyped) :
    Like (f :: scope) (f' :: scope') := by
  intro n
  have hn := hget n
  have hrest := h n
  unfold untyped at hrest ⊢
  cases hsigil : Sigil.of? n with
  | none =>
    rw [lookup_cons_of_plain f scope hsigil, lookup_cons_of_plain f' scope' hsigil]
    cases hf : f.get? n <;> cases hf' : f'.get? n <;> rw [hf, hf'] at hn
    · exact hrest
    · cases hn
    · cases hn
    · exact congrArg Except.ok hn
  | some sigil =>
    rw [lookup_cons_of_sigil f scope hsigil, lookup_cons_of_sigil f' scope' hsigil, hsupports]
    split
    · exact congrArg Except.ok hn
    · exact hrest

lemma locals {defs defs' : List (String × Definition)} (h : Like scope scope')
    (hdefs : untypedAll defs = untypedAll defs') :
    Like (.locals defs :: scope) (.locals defs' :: scope') :=
  h.cons rfl fun n => by rw [← Frame.get?_locals_untypedAll, hdefs, Frame.get?_locals_untypedAll]

lemma params {defs defs' : List (String × Definition)} (h : Like scope scope')
    (hdefs : untypedAll defs = untypedAll defs') :
    Like (.params defs :: scope) (.params defs' :: scope') :=
  h.cons (funext fun sigil => by cases sigil <;> rfl) fun n => by
    rw [← Frame.get?_params_untypedAll, hdefs, Frame.get?_params_untypedAll]

lemma lookup {d : Definition} (h : Like scope scope') (hd : scope.lookup n = .ok (some d)) :
    ∃ d', scope'.lookup n = .ok (some d') ∧ d.untyped = d'.untyped := by
  have hn := h n
  unfold untyped at hn
  rw [hd] at hn
  rcases hd' : scope'.lookup n with e | _ | d' <;> rw [hd'] at hn
  · cases hn
  · cases hn
  · exact ⟨d', rfl, Option.some.inj (Except.ok.inj hn)⟩

lemma capture_eq (h : Like scope scope') (names : List String) :
    (Operator.capture scope names).map (·.2) = (Operator.capture scope' names).map (·.2) := by
  induction names with
  | nil => rfl
  | cons n names ih => rw [map_capture_cons, map_capture_cons, h n, ih]

end Like

end Scope

/-! ## Elements to resolve again -/

/-- A type literal or a name. -/
def Content.isWritten : Content → Bool
  | literal (.typ _) | name _ _ => true
  | _ => false

namespace Store

variable {st st' : Store} {catalog : Catalog} {r x d : Nat}

/-- The declaration has a type literal or a name for the type of a parameter. -/
def isWrittenParam (st : Store) (d : Nat) : Bool :=
  match st.content d with
  | .decl _ [a] => (st.content a).isWritten
  | _ => false

lemma exists_of_isWrittenParam (h : st.isWrittenParam d) : ∃ n a, st.content d = .decl n [a] ∧
    (st.content a).isWritten := by
  unfold isWrittenParam at h
  split at h
  · next n a hd => exact ⟨n, a, hd, h⟩
  · cases h

/-- A function literal has type literals or names for the types of its parameters. -/
def writesParams (st : Store) : Content → Bool
  | .call c => !c.callable.op.isLambda || (c.group 0).all st.isWrittenParam
  | _ => true

/-- Function literals that can be seen from the element have type literals or names for the types of
their parameters. -/
def ParamsWritten (st : Store) (r : Nat) : Prop :=
  ∀ x, Relation.ReflTransGen st.Sees r x → st.writesParams (st.content x)

lemma ParamsWritten.param {c : Call} (h : st.ParamsWritten r) (hc : st.content r = .call c)
    (hop : c.callable.op.isLambda) (hd : d ∈ c.group 0) : st.isWrittenParam d := by
  have hr := h r .refl
  simp only [hc, writesParams, hop, Bool.not_true, Bool.false_or, List.all_eq_true] at hr
  exact hr d hd

lemma ParamsWritten.child (h : st.ParamsWritten r) (hx : st.Sees r x) : st.ParamsWritten x :=
  fun y hy => h y (.head hx hy)

lemma Kept.seen (hk : st.Kept st') (h : st.Orderly catalog) (hr : r < st.size)
    (hx : Relation.ReflTransGen st'.Sees r x) :
    x < st.size ∧ Relation.ReflTransGen st.Sees r x := by
  induction hx with
  | refl => exact ⟨hr, .refl⟩
  | tail _ hstep ih =>
    obtain ⟨hlt, hseen⟩ := ih
    rw [Sees, hk.content_eq hlt] at hstep
    exact ⟨h.child_lt rfl (Content.visible_subset _ hstep), hseen.tail hstep⟩

lemma Kept.isWrittenParam (hk : st.Kept st') (h : st.isWrittenParam d) : st'.isWrittenParam d := by
  obtain ⟨n, a, hd, ha⟩ := exists_of_isWrittenParam h
  have hlt : a < st.size := lt_size_of_content_ne fun hc => by simp [hc, Content.isWritten] at ha
  simp only [Store.isWrittenParam, hk.content hd nofun, hk.content_eq hlt, ha]

lemma ParamsWritten.kept (h : st.ParamsWritten r) (ho : st.Orderly catalog) (hr : r < st.size)
    (hk : st.Kept st') : st'.ParamsWritten r := by
  intro x hx
  obtain ⟨hlt, hseen⟩ := hk.seen ho hr hx
  have hx' := h x hseen
  rw [hk.content_eq hlt]
  cases hc : st.content x with
  | call c =>
    rw [hc] at hx'
    simp only [writesParams, Bool.or_eq_true, List.all_eq_true] at hx' ⊢
    exact hx'.imp_right fun hall d hd => hk.isWrittenParam (hall d hd)
  | _ => rfl

def WholeUpTo (st : Store) (r : Nat) : Prop :=
  ∀ x ≤ r, ∀ t, st.content x = .literal (.typ t) → t.Whole

lemma WholeUpTo.kept (h : st.WholeUpTo r) (hr : r < st.size) (hk : st.Kept st') : st'.WholeUpTo r :=
  fun x hx t hc => h x hx t (hk.content_eq (hx.trans_lt hr) ▸ hc)

end Store

abbrev Session.stepsN (fuel : Nat) : Steps := ⟨resolveN fuel, evalN fuel, evalCallN fuel⟩

open Session

/-- The element of the store is resolved again: in a later session and in a scope like the first,
with enough fuel. -/
structure Resumes (scope : Scope) (catalog : Catalog) (st : Store) (r : Nat) (s : Session)
    (scope' : Scope) (fuel : Nat) : Prop where
  kept : st.Kept s.store
  orderly : s.Orderly
  catalog : s.catalog = catalog
  like : scope.Like scope'
  whole : s.store.WholeUpTo r
  bound : r < fuel

/-- Resolving the element again gives the element itself or fails, with a type error where the types
of parameters are not computed. -/
def Firm (scope : Scope) (catalog : Catalog) (st : Store) (r : Nat) : Prop :=
  ∀ s scope' fuel hint, Resumes scope catalog st r s scope' fuel →
    Yields (s.store.ParamsWritten r) (resolveN fuel scope' r hint) s fun a _ => a = r

section

variable {scope scope₀ scope' scope'' : Scope} {catalog : Catalog} {st st' : Store}
  {r a d fuel : Nat} {s s' : Session} {c : Call}

lemma Firm.kept (h : Firm scope catalog st r) (hk : st.Kept st') : Firm scope catalog st' r :=
  fun s scope' fuel hint hr =>
    h s scope' fuel hint ⟨hk.trans hr.kept, hr.orderly, hr.catalog, hr.like, hr.whole, hr.bound⟩

lemma Resumes.child (h : Resumes scope catalog st r s scope' fuel) (hd : s.store.Sees r d) :
    Resumes scope catalog st d s scope' fuel := by
  have hlt : d < r := (h.orderly r).backward d (Content.visible_subset _ hd)
  exact ⟨h.kept, h.orderly, h.catalog, h.like, fun x hx => h.whole x (hx.trans hlt.le),
    hlt.trans h.bound⟩

lemma Resumes.grown (h : Resumes scope catalog st r s scope' fuel) (hlt : r < s.store.size)
    (hg : s.Grown s') : Resumes scope catalog st r s' scope' fuel :=
  ⟨h.kept.trans hg.store, hg.orderly, hg.catalog.trans h.catalog, h.like,
    h.whole.kept hlt hg.store, h.bound⟩

lemma Firm.steady (hfirm : Firm scope catalog st a)
    (h : Resumes scope₀ catalog st r s scope' (fuel + 1))
    (ha : s.store.Sees r a) (hlike : scope.Like scope'') :
    (stepsN fuel).Steady (s.store.ParamsWritten r) scope'' s a := by
  have hlt : a < r := (h.orderly r).backward a (Content.visible_subset _ ha)
  have hsize : a < s.store.size := h.orderly.child_lt rfl (Content.visible_subset _ ha)
  intro s' hint hg
  have hbound := h.bound
  have hwhole : s.store.WholeUpTo a := fun x hx => h.whole x (hx.trans hlt.le)
  have hyields := hfirm s' scope'' fuel hint ⟨h.kept.trans hg.store, hg.orderly,
    hg.catalog.trans h.catalog, hlike, hwhole.kept hsize hg.store, by omega⟩
  exact hyields.relax fun hwritten => (hwritten.child ha).kept h.orderly hsize hg.store

lemma Resumes.steady_args (h : Resumes scope catalog st r s scope' (fuel + 1)) (hc : c.At s r)
    (hop : c.callable.op.isLambda = false)
    (hfirm : ∀ a ∈ c.groups.flatten, Firm scope catalog st a) :
    ∀ a ∈ c.groups.flatten, (stepsN fuel).Steady (s.store.ParamsWritten r) scope' s a := by
  intro a ha
  refine (hfirm a ha).steady h ?_ h.like
  rw [Store.Sees, hc.content, Content.visible, hop]
  exact ha

lemma yields_resolveStep {steps : Steps} {strict : Prop} {hint : Ty} {P : Nat → Store → Prop}
    (hP : ∀ a (s₁ s₂ : Session), s₁.Grown s₂ → P a s₁.store → P a s₂.store)
    (h : Yields strict (resolveContent steps scope r) s P) :
    Yields strict (resolveStep steps scope r hint) s P := by
  refine .attempt_bind h ?_ ?_
  · intro a s₁ hg₁ ha
    refine .ite (fun _ => .pure hg₁.orderly ha) fun _ => .typeOf_bind (.spanOf_bind ?_)
    exact .solve_bind hg₁.orderly (.unify _ _) fun _ s₂ hg₂ => .pure hg₂.orderly (hP a s₁ s₂ hg₂ ha)
  · intro e s₁ he
    cases e with
    | unresolved el => exact .get_bind (.throw fun hstrict => absurd (he hstrict) nofun)
    | _ => exact .throw he

lemma firm_of_content (hlt : r < st.size)
    (h : ∀ s scope' fuel, Resumes scope catalog st r s scope' (fuel + 1) →
    s.store.content r = st.content r →
    Yields (s.store.ParamsWritten r) (resolveContent (stepsN fuel) scope' r) s fun a _ => a = r) :
    Firm scope catalog st r := by
  intro s scope' fuel hint hr
  cases fuel with
  | zero => exact absurd hr.bound (Nat.not_lt_zero r)
  | succ fuel => exact yields_resolveStep (fun _ _ _ _ ha => ha) (h s scope' fuel hr
      (hr.kept.content_eq hlt))

lemma firm_literal {v : Val} (hc : st.content r = .literal v) : Firm scope catalog st r := by
  refine firm_of_content (Store.lt_size_of_content_ne (by simp [hc])) fun s scope' fuel hr hsame =>
    .get_bind ?_
  rw [hc] at hsame
  rw [hsame]
  cases v with
  | typ t =>
    have hrefs : resolveRefs (schema? scope') t = .ok (some t) :=
      resolveRefs_of_whole (hr.whole r le_rfl t hsame)
    simp only [refsIn, hrefs]
    exact .pure_bind (.ite (fun _ => .pure hr.orderly rfl) fun hne => absurd (Ty.equal_self t) hne)
  | _ => exact .pure hr.orderly rfl

lemma firm_name {n : String} {d : Definition} (hc : st.content r = .name n (some d)) :
    Firm scope catalog st r := by
  refine firm_of_content (Store.lt_size_of_content_ne (by simp [hc])) fun s scope' fuel hr hsame =>
    .get_bind ?_
  rw [hsame, hc]
  exact .pure hr.orderly rfl

lemma firm_of_call (hc : st.content r = .call c) (hsig : c.sig.isSome)
    (h : ∀ s scope' fuel, Resumes scope catalog st r s scope' (fuel + 1) → c.At s r →
      Yields (s.store.ParamsWritten r) (Operator.resolve (stepsN fuel) scope' r c) s fun a _ =>
      a = r) : Firm scope catalog st r := by
  refine firm_of_content (Store.lt_size_of_content_ne (by simp [hc])) fun s scope' fuel hr hsame =>
    .get_bind ?_
  rw [hc] at hsame
  rw [hsame]
  obtain ⟨sig, hsig⟩ := Option.isSome_iff_exists.1 hsig
  simp only [resolveCall, instantiate, hsig]
  exact .pure_bind (h s scope' fuel hr ⟨hr.orderly, hsame⟩)

end

end Resolvent
