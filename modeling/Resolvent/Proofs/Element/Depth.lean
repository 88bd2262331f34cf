import Resolvent.Proofs.Element.Store
import Mathlib.Data.Finset.Card

/-!
# How deep elements nest

An element is shallow to a depth if no way down from it is longer.
-/

namespace Resolvent

/-- If the content is a name, it is in the set. -/
def Content.NamesIn (N : String → Prop) : Content → Prop
  | .name n _ => N n
  | _ => True

lemma Content.namesIn_top (c : Content) : c.NamesIn ⊤ := by cases c <;> trivial

namespace Store

open Relation

variable {st st' : Store} {m n id x : Nat} {content : Content} {span : Span} {N : String → Prop}

def Refers (st : Store) (p c : Nat) : Prop := c ∈ (st.content p).children

/-- Elements refer to elements of the store, and following references ends. -/
structure Founded (st : Store) : Prop where
  lt_size : ∀ {p c}, st.Refers p c → c < st.size
  wellFounded : WellFounded (Function.swap st.Refers)

lemma Orderly.founded {catalog : Catalog} (h : st.Orderly catalog) : st.Founded where
  lt_size hc := h.child_lt rfl hc
  wellFounded := h.wellFounded_isChild

/-- The number has an element, and no way down from it visits more than `n` elements. The names on
the way are in `N`. -/
def Shallow (st : Store) (N : String → Prop) : (n : Nat) → (id : Nat) → Prop
  | 0, _ => False
  | n + 1, id => id < st.size ∧ (st.content id).NamesIn N ∧ ∀ c ∈ (st.content id).children,
      st.Shallow N n c

namespace Shallow

lemma pos (h : st.Shallow N n id) : 0 < n := by
  cases n with
  | zero => exact h.elim
  | succ n => omega

lemma lt_size (h : st.Shallow N n id) : id < st.size := by
  cases n with
  | zero => exact h.elim
  | succ n => exact h.1

lemma child (h : st.Shallow N (n + 1) id) (hc : st.content id = content)
    (hx : x ∈ content.children) : st.Shallow N n x := by
  subst hc
  exact h.2.2 x hx

lemma below (h : st.Shallow N n id) (hx : st.Refers id x) : st.Shallow N (n - 1) x := by
  cases n with
  | zero => exact h.elim
  | succ n => exact h.child rfl hx

lemma namesIn (h : st.Shallow N n id) (hc : st.content id = content) : content.NamesIn N := by
  subst hc
  cases n with
  | zero => exact h.elim
  | succ n => exact h.2.1

lemma mono (h : st.Shallow N m id) (hmn : m ≤ n) : st.Shallow N n id := by
  induction n generalizing m id with
  | zero => rwa [Nat.le_zero.1 hmn] at h
  | succ n ih =>
    cases m with
    | zero => exact h.elim
    | succ m => exact ⟨h.1, h.2.1, fun c hc => ih (h.2.2 c hc) (by omega)⟩

lemma kept (h : st.Shallow N n id) (hk : Kept st st') : st'.Shallow N n id := by
  induction n generalizing id with
  | zero => exact h.elim
  | succ n ih =>
    have hcontent := hk.content_eq h.lt_size
    refine ⟨h.lt_size.trans_le hk.size_le, hcontent ▸ h.2.1, fun c hc => ih (h.2.2 c ?_)⟩
    rwa [hcontent] at hc

end Shallow

lemma shallow_alloc (hname : content.NamesIn N) (h : ∀ c ∈ content.children, st.Shallow N n c) :
    (st.alloc content span).2.Shallow N (n + 1) st.size := by
  refine ⟨by simp, by rwa [content_alloc_size], fun c hc => ?_⟩
  rw [content_alloc_size] at hc
  exact (h c hc).kept (.alloc st content span)

/-! ## Depths are bounded -/

lemma Founded.not_transGen_self (h : st.Founded) : ¬ TransGen st.Refers id id := by
  intro hid
  have hswap : TransGen (Function.swap st.Refers) id id := transGen_swap.2 hid
  exact h.wellFounded.transGen.asymmetric _ _ hswap hswap

lemma shallow_of_closed {S : Finset Nat} (h : ∀ x ∈ S, ¬ TransGen st.Refers x x)
    (hlt : ∀ x ∈ S, x < st.size) (hclosed : ∀ x ∈ S, ∀ c ∈ (st.content x).children, c ∈ S)
    (hN : ∀ x ∈ S, (st.content x).NamesIn N) (hid : id ∈ S)
    (hn : S.card ≤ n) : st.Shallow N n id := by
  classical
  induction n generalizing S id with
  | zero => simp_all
  | succ n ih =>
    refine ⟨hlt id hid, hN id hid, fun c hc => ?_⟩
    let below : Finset Nat := S.filter fun x => TransGen st.Refers id x
    have hcard : below.card < S.card :=
      Finset.card_lt_card ⟨Finset.filter_subset _ _,
        fun hsub => h id hid (Finset.mem_filter.1 (hsub hid)).2⟩
    refine ih (S := below) (fun x hx => h x (Finset.mem_filter.1 hx).1) (fun x hx =>
      hlt x (Finset.mem_filter.1 hx).1) (fun x hx y hy => ?_)
      (fun x hx => hN x (Finset.mem_filter.1 hx).1) ?_ (by omega)
    · obtain ⟨hxS, hxr⟩ := Finset.mem_filter.1 hx
      exact Finset.mem_filter.2 ⟨hclosed x hxS y hy, hxr.tail hy⟩
    · exact Finset.mem_filter.2 ⟨hclosed id hid c hc, .single hc⟩

lemma shallow_of_reach (hid : id < st.size)
    (h : ∀ x, ReflTransGen st.Refers id x → ¬ TransGen st.Refers x x)
    (hlt : ∀ x, ReflTransGen st.Refers id x → ∀ c, st.Refers x c → c < st.size)
    (hN : ∀ x, ReflTransGen st.Refers id x → (st.content x).NamesIn N) :
    st.Shallow N st.size id := by
  classical
  let below : Finset Nat := (Finset.range st.size).filter fun x => ReflTransGen st.Refers id x
  have hreach {x} (hx : x ∈ below) : ReflTransGen st.Refers id x := (Finset.mem_filter.1 hx).2
  refine shallow_of_closed (fun x hx => h x (hreach hx)) (fun x hx => ?_) (fun x hx c hc => ?_)
    (fun x hx => hN x (hreach hx)) ?_ ?_
  · exact Finset.mem_range.1 (Finset.mem_filter.1 hx).1
  · exact Finset.mem_filter.2 ⟨Finset.mem_range.2 (hlt x (hreach hx) c hc), (hreach hx).tail hc⟩
  · exact Finset.mem_filter.2 ⟨Finset.mem_range.2 hid, .refl⟩
  · exact (Finset.card_filter_le _ _).trans (by simp)

lemma Founded.shallow_names (h : st.Founded) (hid : id < st.size)
    (hN : ∀ x, ReflTransGen st.Refers id x → (st.content x).NamesIn N) : st.Shallow N st.size id :=
  shallow_of_reach hid (fun _ _ => h.not_transGen_self) (fun _ _ _ hc => h.lt_size hc) hN

lemma Founded.shallow (h : st.Founded) (hid : id < st.size) : st.Shallow ⊤ st.size id :=
  h.shallow_names hid fun x _ => (st.content x).namesIn_top

lemma Shallow.reach (h : st.Shallow N n id) (hx : ReflTransGen st.Refers id x) :
    ∃ m, st.Shallow N m x := by
  induction hx with
  | refl => exact ⟨n, h⟩
  | tail _ hstep ih =>
    obtain ⟨m, hm⟩ := ih
    exact ⟨m - 1, hm.below hstep⟩

lemma Shallow.not_transGen_self (h : st.Shallow N n id) : ¬ TransGen st.Refers id id := by
  induction n generalizing id with
  | zero => exact h.elim
  | succ n ih =>
    intro hcycle
    obtain ⟨c, hc, hback⟩ := TransGen.head'_iff.1 hcycle
    exact ih (h.child rfl hc) (.tail' hback hc)

lemma Shallow.within_size (h : st.Shallow N n id) : st.Shallow ⊤ st.size id := by
  refine shallow_of_reach h.lt_size (fun x hx => ?_) (fun x hx c hc => ?_) fun x _ =>
    (st.content x).namesIn_top
  · obtain ⟨m, hm⟩ := h.reach hx
    exact hm.not_transGen_self
  · obtain ⟨m, hm⟩ := h.reach (hx.tail hc)
    exact hm.lt_size

end Store

end Resolvent
