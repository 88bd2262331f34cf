import Resolvent.Proofs.Element.Extract
import Resolvent.Proofs.Session.Orderly
import Resolvent.Proofs.Val.Whole

/-!
# What resolving keeps up

Several things hold throughout while a session resolves: elements stay in order, types get no
references, and no element gets deeper than the one it comes from.
-/

namespace Resolvent

open Operator

/-- A budget ran out, of steps or of a search over types. -/
def Failure.isExhausted : Failure → Bool
  | exhausted | typing .exhausted _ => true
  | _ => false

def Failure.Final (e : Failure) : Prop := e.isExhausted = false ∧ ∀ el, e ≠ .unresolved el

/-- All types in the session are whole. -/
structure Session.Whole (s : Session) : Prop where
  store : s.store.Whole
  subst : s.subst.Whole
  catalog : s.catalog.Whole

lemma Session.Whole.typeOf {s : Session} (h : s.Whole) (id : Nat) : (s.typeOf id).Whole :=
  h.subst.apply (h.store.typeOf id)

/-- What is asked of the sessions over a catalog and of their elements while they resolve. -/
structure Regime where
  catalog : Catalog
  /-- Elements are to fit the elements before them. -/
  orderly : Prop
  /-- Types are to be whole. -/
  whole : Prop
  /-- Elements are not to get deeper, and no budget is to run out. -/
  bounded : Prop
  /-- The names that elements of bounded depth may have. -/
  names : String → Prop
  /-- What is to hold of an element that resolving in a scope has given. -/
  done : Scope → Store → Nat → Prop
  /-- What is to hold of an element that turns out to be a type. -/
  typed : Scope → Store → Nat → Prop
  founded : orderly ∨ bounded
  kept : ∀ {scope st st' r}, done scope st r → st.Kept st' → done scope st' r
  steady : ∀ {scope st st' a}, typed scope st a → a < st.size → st.Kept st' → typed scope st' a
  named : ∀ {scope st a}, NamesType scope st a → typed scope st a
  data : ∀ {scope st r}, (∀ c, st.content r ≠ .call c) → (orderly → (st.content r).isResolved) →
    (∀ a ∈ (st.content r).children, done scope st a) → done scope st r
  call : ∀ {scope st r c}, st.content r = .call c → c.sig.isSome →
    (∀ a ∈ c.groups.flatten, a < st.size ∧ done scope st a) → c.Rests catalog st → done scope st r
  scope : ∀ {scope st r c l tail}, st.content r = .call c → c.sig.isSome →
  c.callable.op = .builtin .scope → c.groups = [l.decls, tail] → Declared done scope st l →
    (∀ a ∈ tail, a < st.size ∧ done (.locals l.defs :: scope) st a) →
    (∀ v, tail.getLast?.bind st.val? = some v → l.known = false) → done scope st r
  lambda : ∀ {scope st r c decls body} {params : List Param}, st.content r = .call c →
  c.sig.isSome → c.callable.op = .builtin .lambda → c.groups = [decls, body] →
    List.Forall₂ (fun d p => ∃ a, st.content d = .decl p.1 [a] ∧ a < st.size ∧
    typed scope st a) decls params → (∀ a ∈ body, a < st.size ∧
    done (.params (params.map fun (n, t) => (n, .typed t)) :: scope) st a) →
    (capture scope (freeNames (params.map (·.1)) (st.extract body).2.elements.toList)).map (·.2) =
    .ok true → done scope st r

namespace Regime

variable {G : Regime} {α β ι : Type} {s s' s'' : Session} {P P' : α → Store → Prop}
  {Q : β → Store → Prop} {l n id x : Nat} {span : Span}
  {st st' : Store} {content : Content} {ids args items : List Nat} {m m' : ι → Run α}
    {k : ι → α → Run β} {a : α} {name : String} {e : Failure}

/-- The session is as the regime asks. -/
structure Admits (G : Regime) (s : Session) : Prop where
  catalog : s.catalog = G.catalog
  orderly : G.orderly → s.Orderly
  whole : G.whole → s.Whole
  sound : G.bounded → s.subst.Sound

/-- The number has an element, which is no deeper than the regime allows. -/
structure Within (G : Regime) (n : Nat) (st : Store) (id : Nat) : Prop where
  lt_size : id < st.size
  shallow : G.bounded → st.Shallow G.names n id

/-- The second session has all elements of the first and is as the regime asks. -/
structure Grows (G : Regime) (s s' : Session) : Prop where
  store : s.store.Kept s'.store
  admits : G.Admits s'
  lenient : s'.lenient = s.lenient
  subst : s.subst.Sound → s'.subst.Sound

lemma Grows.refl (h : G.Admits s) : G.Grows s s := ⟨.refl _, h, rfl, fun hs => hs⟩

lemma Grows.trans (h : G.Grows s s') (h' : G.Grows s' s'') : G.Grows s s'' :=
  ⟨h.store.trans h'.store, h'.admits, h'.lenient.trans h.lenient, fun hs => h'.subst (h.subst hs)⟩

lemma Grows.lt_size (h : G.Grows s s') (hid : id < s.store.size) : id < s'.store.size :=
  hid.trans_le h.store.size_le

namespace Within

lemma kept (h : G.Within n st id) (hk : st.Kept st') : G.Within n st' id :=
  ⟨h.lt_size.trans_le hk.size_le, fun hb => (h.shallow hb).kept hk⟩

lemma mono (h : G.Within l st id) (hl : l ≤ n) : G.Within n st id :=
  ⟨h.lt_size, fun hb => (h.shallow hb).mono hl⟩

lemma of_lt (hb : ¬ G.bounded) (h : id < st.size) : G.Within n st id :=
  ⟨h, fun hbounded => absurd hbounded hb⟩

lemma child (h : G.Within n s.store id) (hs : G.Admits s) (hc : s.store.content id = content)
    (hx : x ∈ content.children) : G.Within (n - 1) s.store x := by
  have hshallow (hb : G.bounded) : s.store.Shallow G.names (n - 1) x := by
    subst hc
    exact (h.shallow hb).below hx
  refine ⟨?_, hshallow⟩
  rcases G.founded with ho | hb
  · exact (hs.orderly ho).child_lt hc hx
  · exact (hshallow hb).lt_size

lemma within_size (h : G.Within n s.store id) (hs : G.Admits s) :
    s.store.Shallow ⊤ s.store.size id := by
  rcases G.founded with ho | hb
  · exact (hs.orderly ho).founded.shallow h.lt_size
  · exact (h.shallow hb).within_size

lemma raise (h : G.Within n st id) (hx : G.Within (n - 1 + 1) st' x) : G.Within n st' x := by
  refine ⟨hx.lt_size, fun hb => ?_⟩
  have hshallow := hx.shallow hb
  rwa [Nat.sub_add_cancel (h.shallow hb).pos] at hshallow

end Within

lemma Grows.within (h : G.Grows s s') (hids : ∀ i ∈ ids, G.Within n s.store i) :
    ∀ i ∈ ids, G.Within n s'.store i :=
  fun i hi => (hids i hi).kept h.store

/-- A result of which `P` holds, or a failure for want of a symbol at an element, or a failure that
is final. -/
def Concludes (G : Regime) (n : Nat) (P : α → Store → Prop) (r : Except Failure α) (st : Store) :
    Prop :=
  match r with
  | .ok a => P a st
  | .error e => (G.bounded → e.isExhausted = false) ∧ ∀ el, e = .unresolved el → G.Within n st el

/-- All members of the family end alike, in a result of which `P` holds or in a failure, and keep up
the regime. -/
def Upholds (G : Regime) (n : Nat) (m : ι → Run α) (s : Session) (P : α → Store → Prop) : Prop :=
  ∃ r s', (∀ i, (m i).exec s = (r, s')) ∧ G.Grows s s' ∧ G.Concludes n P r s'.store

namespace Upholds

lemma of_exec {m : Run α} {r : Except Failure α} (h : m.exec s = (r, s')) (hs : G.Grows s s')
    (hr : G.Concludes n P r s'.store) : G.Upholds n (fun _ : ι => m) s P :=
  ⟨r, s', fun _ => h, hs, hr⟩

lemma of_ok (h : G.Upholds n m s P) {i : ι} (hm : (m i).exec s = (.ok a, s')) :
    G.Grows s s' ∧ P a s'.store := by
  obtain ⟨r, s₁, hexec, hs₁, hr⟩ := h
  cases (hexec i).symm.trans hm
  exact ⟨hs₁, hr⟩

lemma keeps {m : Run α} (h : G.Upholds n (fun _ : Unit => m) s P) (ho : G.orderly)
    (hs : G.Admits s) : Run.Keeps m s P := by
  obtain ⟨r, s', hm, hs', hr⟩ := h
  refine .of_exec (hm ())
    ⟨⟨hs'.store, hs'.admits.orderly ho, hs'.admits.catalog.trans hs.catalog.symm, hs'.lenient,
    hs'.subst⟩, ?_⟩
  cases r with
  | ok a => exact hr
  | error e => exact fun el hel => (hr.2 el hel).lt_size

lemma mono (h : G.Upholds n m s P) (hP : ∀ a st, P a st → P' a st) : G.Upholds n m s P' := by
  obtain ⟨r, s', hm, hs, hr⟩ := h
  refine ⟨r, s', hm, hs, ?_⟩
  cases r with
  | ok a => exact hP a _ hr
  | error e => exact hr

lemma raise (hl : l ≤ n) (h : G.Upholds l m s P) : G.Upholds n m s P := by
  obtain ⟨r, s', hm, hs, hr⟩ := h
  refine ⟨r, s', hm, hs, ?_⟩
  cases r with
  | ok a => exact hr
  | error e => exact ⟨hr.1, fun el hel => (hr.2 el hel).mono hl⟩

lemma level (h : G.Upholds l m s P) (hb : ¬ G.bounded) (hP : ∀ a st, P a st → P' a st) :
    G.Upholds n m s P' := by
  obtain ⟨r, s', hm, hs, hr⟩ := h
  refine ⟨r, s', hm, hs, ?_⟩
  cases r with
  | ok a => exact hP a _ hr
  | error e => exact ⟨hr.1, fun el hel => .of_lt hb (hr.2 el hel).lt_size⟩

lemma pure (h : G.Admits s) (ha : P a s.store) : G.Upholds n (fun _ : ι => Pure.pure a) s P :=
  of_exec rfl (.refl h) ha

lemma throw (h : G.Admits s) (he : G.bounded → e.isExhausted = false)
    (hel : ∀ el, e = .unresolved el → G.Within n s.store el) :
    G.Upholds n (fun _ : ι => (MonadExcept.throw e : Run α)) s P :=
  of_exec rfl (.refl h) ⟨he, hel⟩

lemma throw_final (h : G.Admits s) (he : e.Final) :
    G.Upholds n (fun _ : ι => (MonadExcept.throw e : Run α)) s P :=
  throw h (fun _ => he.1) fun el hel => absurd hel (he.2 el)

lemma throw_unresolved (h : G.Admits s) (hid : G.Within n s.store id) :
    G.Upholds n (fun _ : ι => (MonadExcept.throw (Failure.unresolved id) : Run α)) s P := by
  refine throw h (fun _ => rfl) ?_
  rintro _ ⟨⟩
  exact hid

lemma attempt_bind {k : ι → Except Failure α → Run β} (h : G.Upholds l m s P)
    (hk : ∀ r s', G.Grows s s' → G.Concludes l P r s'.store → G.Upholds n (fun i => k i r) s' Q) :
    G.Upholds n (fun i => (m i).attempt >>= k i) s Q := by
  obtain ⟨r, s₁, hm, hs₁, hr⟩ := h
  obtain ⟨r', s₂, hk, hs₂, hr'⟩ := hk r s₁ hs₁ hr
  refine ⟨r', s₂, fun i => ?_, hs₁.trans hs₂, hr'⟩
  change (k i ((m i).exec s).1).exec ((m i).exec s).2 = _
  rw [hm i]
  exact hk i

lemma bind (h : G.Upholds n m s P)
    (hk : ∀ a s', G.Grows s s' → P a s'.store → G.Upholds n (fun i => k i a) s' Q) :
    G.Upholds n (fun i => m i >>= k i) s Q := by
  obtain ⟨r, s₁, hm, hs₁, hr⟩ := h
  cases r with
  | error e =>
    exact ⟨.error e, s₁, fun i => by rw [Run.exec_bind, hm i], hs₁, hr⟩
  | ok a =>
    obtain ⟨r', s₂, hk, hs₂, hr'⟩ := hk a s₁ hs₁ hr
    exact ⟨r', s₂, fun i => by rw [Run.exec_bind, hm i]; exact hk i, hs₁.trans hs₂, hr'⟩

lemma pure_bind (h : G.Upholds n (fun i => k i a) s Q) :
    G.Upholds n (fun i => Pure.pure a >>= k i) s Q := h

lemma get_bind {k : ι → Session → Run α} (h : G.Upholds n (fun i => k i s) s P) :
    G.Upholds n (fun i => get >>= k i) s P := h

lemma spanOf_bind {k : ι → Span → Run α} (h : G.Upholds n (fun i => k i (s.store.span id)) s P) :
    G.Upholds n (fun i => Run.spanOf id >>= k i) s P :=
  h

lemma typeOf_bind {k : ι → Ty → Run α} (h : G.Upholds n (fun i => k i (s.typeOf id)) s P) :
    G.Upholds n (fun i => Run.typeOf id >>= k i) s P :=
  h

lemma val?_bind {k : ι → Option Val → Run α}
    (h : G.Upholds n (fun i => k i (s.store.val? id)) s P) :
    G.Upholds n (fun i => Run.val? id >>= k i) s P :=
  h

lemma ite {c : Prop} [Decidable c] (ht : c → G.Upholds n m s P) (hf : ¬ c → G.Upholds n m' s P) :
    G.Upholds n (fun i => if c then m i else m' i) s P := by
  by_cases hc : c
  · simpa only [hc, ↓reduceIte] using ht hc
  · simpa only [hc, ↓reduceIte] using hf hc

lemma ofExcept {x : Except Failure α} (h : G.Admits s) (hx : ∀ e, x = .error e → e.Final) :
    G.Upholds n (fun _ : ι => (MonadExcept.ofExcept x : Run α)) s fun a _ => x = .ok a := by
  refine of_exec (Run.exec_ofExcept x s) (.refl h) ?_
  cases x with
  | ok a => rfl
  | error e => exact ⟨fun _ => (hx e rfl).1, fun el hel => absurd hel ((hx e rfl).2 el)⟩

end Upholds

structure Allows (G : Regime) (n : Nat) (st : Store) (content : Content) : Prop where
  children : ∀ c ∈ content.children, G.Within n st c
  names : G.bounded → content.NamesIn G.names
  known : G.orderly → ∀ m d, content = .name m (some d) → d.pending = false
  arity : G.orderly → G.catalog.HasBuiltins → ∀ c, content = .call c → c.callable.Takes c.groups
  whole : G.whole → content.Whole

namespace Allows

lemma literal {v : Val} (hv : G.whole → v.isWhole) : G.Allows n st (.literal v) :=
  ⟨by simp [Content.children], fun _ => trivial, nofun, nofun, hv⟩

lemma tag {el : Nat} (hel : G.Within n st el) : G.Allows n st (.tag name (some el)) :=
  ⟨by simpa [Content.children] using hel, fun _ => trivial, nofun, nofun, fun _ => trivial⟩

lemma decl (hargs : ∀ a ∈ args, G.Within n st a) : G.Allows n st (.decl name args) :=
  ⟨hargs, fun _ => trivial, nofun, nofun, fun _ => trivial⟩

lemma expr (hitems : ∀ a ∈ items, G.Within n st a) : G.Allows n st (.expr items) :=
  ⟨hitems, fun _ => trivial, nofun, nofun, fun _ => trivial⟩

lemma call {c : Call} (hargs : ∀ a ∈ c.groups.flatten, G.Within n st a)
    (harity : G.orderly → G.catalog.HasBuiltins → c.callable.Takes c.groups)
    (hwhole : G.whole → c.Whole) : G.Allows n st (.call c) :=
  ⟨hargs, fun _ => trivial, nofun, fun ho hb _ heq => by cases heq; exact harity ho hb, hwhole⟩

end Allows

namespace Upholds

lemma alloc (h : G.Admits s) (hc : G.Allows l s.store content) :
    G.Upholds n (fun _ : ι => Run.alloc content span) s
    fun id st => G.Within (l + 1) st id ∧ id = s.store.size ∧
    st = (s.store.alloc content span).2 := by
  have hs : G.Admits { s with store := (s.store.alloc content span).2 } := {
    catalog := h.catalog
    orderly := fun ho => (h.orderly ho).alloc
      ⟨fun c hx => (hc.children c hx).lt_size, hc.known ho, fun hb => hc.arity ho (h.catalog ▸ hb)⟩
    whole := fun hw =>
      ⟨(h.whole hw).store.alloc (hc.whole hw) span, (h.whole hw).subst, (h.whole hw).catalog⟩
    sound := h.sound }
  have hlt : s.store.size < (s.store.alloc content span).2.size := by simp
  refine of_exec rfl ⟨.alloc _ _ _, hs, rfl, fun hs => hs⟩ ⟨⟨hlt, fun hb => ?_⟩, rfl, rfl⟩
  exact Store.shallow_alloc (hc.names hb) fun c hx => (hc.children c hx).shallow hb

lemma literal {v : Val} (h : G.Admits s) (hv : G.whole → v.isWhole) :
    G.Upholds n (fun _ : ι => Run.literal v span) s
    fun id st => G.Within (l + 1) st id ∧ st.content id = .literal v := by
  refine (alloc (l := l) h (.literal hv)).mono ?_
  rintro _ _ ⟨hid, rfl, rfl⟩
  exact ⟨hid, Store.content_alloc_size _ _ _⟩

end Upholds

end Regime

end Resolvent
