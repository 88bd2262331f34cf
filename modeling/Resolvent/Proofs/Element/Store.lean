import Resolvent.Scope.Basic
import Resolvent.Element.Store
import Mathlib.Data.List.Basic
import Mathlib.Logic.Relation
import Mathlib.Order.Nat

/-!
# Stores that only grow

A store that keeps all elements of another one, the children of an element, and what it means for an
element to be complete: nothing below it waits to be resolved.
-/

namespace Resolvent

open List

namespace Operator

def isLambda : Operator → Bool
  | builtin .lambda => true
  | _ => false

end Operator

namespace Content

/-- The elements that an element refers to. -/
def children : Content → List Nat
  | literal _ | name _ _ => []
  | tag _ el => el.toList
  | decl _ args => args
  | expr items => items
  | call c => c.groups.flatten

/-- The children other than the parameter declarations of a function literal. -/
def visible : Content → List Nat
  | call c => if c.callable.op.isLambda then c.groups.tail.flatten else c.groups.flatten
  | c => c.children

/-- Neither an expression nor a name without a definition to go by. -/
def isResolved : Content → Bool
  | expr _ => false
  | name _ d => d.any (!·.pending)
  | _ => true

lemma visible_subset (c : Content) : c.visible ⊆ c.children := by
  cases c with
  | call c =>
    intro x hx
    simp only [visible, children, mem_flatten] at hx ⊢
    split at hx
    · obtain ⟨g, hg, hx⟩ := mem_flatten.1 hx
      exact ⟨g, mem_of_mem_tail hg, hx⟩
    · exact mem_flatten.1 hx
  | _ => exact fun _ hx => hx

end Content

namespace Store

variable {st st' st'' : Store} {id r x : Nat}

/-! ## Growing -/

/-- The second store has all elements of the first. -/
structure Kept (st st' : Store) : Prop where
  size_le : st.size ≤ st'.size
  get : ∀ id, id < st.size → st'.get id = st.get id

lemma Kept.refl (st : Store) : Kept st st := ⟨le_rfl, fun _ _ => rfl⟩

lemma Kept.trans (h : Kept st st') (h' : Kept st' st'') : Kept st st'' where
  size_le := h.size_le.trans h'.size_le
  get id hid := (h'.get id (hid.trans_le h.size_le)).trans (h.get id hid)

lemma Kept.alloc (st : Store) (c : Content) (span : Span) : Kept st (st.alloc c span).2 where
  size_le := by simp
  get _ hid := get_alloc_of_lt c span hid

@[simp] lemma content_alloc_size (st : Store) (c : Content) (span : Span) :
    (st.alloc c span).2.content st.size = c := by
  simp [content]

lemma content_of_size_le (h : st.size ≤ id) : st.content id = .expr [] := by
  simp [content, get, Array.getElem?_eq_none h, missing]

lemma lt_size_of_content_ne (h : st.content id ≠ .expr []) : id < st.size := by
  by_contra hge
  exact h (content_of_size_le (Nat.le_of_not_lt hge))

lemma Kept.content_eq (h : Kept st st') (hid : id < st.size) : st'.content id = st.content id := by
  rw [content, content, h.get id hid]

lemma forall_content_iff {Q : Content → Prop} (hmissing : Q (.expr [])) :
    (∀ id, Q (st.content id)) ↔ ∀ e ∈ st.elements.toList, Q e.content := by
  have hget {id : Nat} (hid : id < st.elements.size) : st.get id = st.elements[id] := by
    simp [get, Array.getElem?_eq_getElem hid]
  constructor
  · intro h e he
    obtain ⟨id, hid, rfl⟩ := Array.getElem_of_mem (Array.mem_toList_iff.1 he)
    exact hget hid ▸ h id
  · intro h id
    rcases Nat.lt_or_ge id st.size with hlt | hge
    · rw [content, hget hlt]
      exact h _ (Array.mem_toList_iff.2 (Array.getElem_mem hlt))
    · rwa [content_of_size_le hge]

lemma forall_content_alloc {Q : Nat → Content → Prop} {content : Content} {span : Span}
    (hmissing : ∀ id, Q id (.expr []))
    (h : ∀ id, Q id (st.content id)) (hc : Q st.size content) (id : Nat) :
    Q id ((st.alloc content span).2.content id) := by
  rcases Nat.lt_trichotomy id st.size with hlt | rfl | hgt
  · rw [Kept.content_eq (.alloc st content span) hlt]
    exact h id
  · rwa [content_alloc_size]
  · rw [content_of_size_le (by simp only [size_alloc]; omega)]
    exact hmissing id

lemma Kept.content {c : Content} (h : Kept st st') (hc : st.content id = c) (hne : c ≠ .expr []) :
    st'.content id = c := by
  rw [h.content_eq (lt_size_of_content_ne (hc ▸ hne)), hc]

/-! ## Complete elements -/

/-- Going from an element to a visible child. -/
def Sees (st : Store) (p c : Nat) : Prop := c ∈ (st.content p).visible

/-- Nothing that can be seen from the element waits to be resolved. -/
def Complete (st : Store) (r : Nat) : Prop :=
  ∀ x, Relation.ReflTransGen st.Sees r x → (st.content x).isResolved

lemma complete_iff : st.Complete r ↔ (st.content r).isResolved ∧ ∀ c ∈ (st.content r).visible,
    st.Complete c := by
  constructor
  · intro h
    exact ⟨h r .refl, fun c hc x hx => h x (.head hc hx)⟩
  · rintro ⟨hr, hvisible⟩ x hx
    rcases Relation.ReflTransGen.cases_head hx with rfl | ⟨c, hc, hx⟩
    · exact hr
    · exact hvisible c hc x hx

lemma Complete.of_leaf {content : Content} (hc : st.content r = content) (hres : content.isResolved)
    (hleaf : content.visible = []) : st.Complete r := by
  rw [complete_iff, hc, hleaf]
  exact ⟨hres, by simp⟩

lemma Complete.isResolved (h : st.Complete r) : (st.content r).isResolved := h r .refl

lemma Complete.lt_size (h : st.Complete r) : r < st.size := by
  refine lt_size_of_content_ne fun hr => ?_
  have := h.isResolved
  simp [hr, Content.isResolved] at this

lemma Complete.kept (h : st.Complete r) (hk : Kept st st') : st'.Complete r := by
  have hseen (x : Nat) (hx : Relation.ReflTransGen st'.Sees r x) :
    Relation.ReflTransGen st.Sees r x := by
    induction hx with
    | refl => exact .refl
    | tail _ hstep ih =>
      have hy : st.Complete _ := fun y hy => h y (ih.trans hy)
      exact ih.tail (by rwa [Sees, hk.content_eq hy.lt_size] at hstep)
  intro x hx
  have hcomplete : st.Complete x := fun y hy => h y ((hseen x hx).trans hy)
  rw [hk.content_eq hcomplete.lt_size]
  exact h x (hseen x hx)

/-! ## Orderly stores -/

end Store

/-- The catalog has the builtin operators under their names; it may have others under other names.
-/
def Catalog.HasBuiltins (c : Catalog) : Prop :=
  ∀ b : Builtin, c.callable? b.name = builtins.callable? b.name

lemma Catalog.HasBuiltins.refl : builtins.HasBuiltins := fun _ => rfl

/-- The operator is not a builtin one under more or fewer parameters than it is written for. -/
def Callable.Proper (c : Callable) : Prop :=
  ∀ b, c.op = .builtin b → c.params.length = b.params.length

/-- There is one group of arguments for each parameter, where the operator is proper. -/
def Callable.Takes (c : Callable) (groups : List (List Nat)) : Prop :=
  c.Proper → groups.length = c.params.length

lemma Callable.Takes.of_builtin {c : Callable} {b : Builtin} {groups : List (List Nat)}
    (hop : c.op = .builtin b) (h : groups.length = b.params.length) : c.Takes groups :=
  fun hc => h.trans (hc b hop).symm

/-- The content refers to elements below the bound, and is as elements of a session over the catalog
are. -/
structure Content.Fits (catalog : Catalog) (n : Nat) (content : Content) : Prop where
  backward : ∀ c ∈ content.children, c < n
  known : ∀ m d, content = .name m (some d) → d.pending = false
  arity : catalog.HasBuiltins → ∀ c, content = .call c → c.callable.Takes c.groups

namespace Content.Fits

variable {catalog : Catalog} {m n : Nat} {content : Content}

lemma of_children (h : ∀ c ∈ content.children, c < n) (hname : ∀ m d, content ≠ .name m (some d))
    (hcall : ∀ c, content ≠ .call c) : content.Fits catalog n :=
  ⟨h, fun m d hc => absurd hc (hname m d), fun _ c hc => absurd hc (hcall c)⟩

lemma expr {items : List Nat} (h : ∀ a ∈ items, a < n) : (Content.expr items).Fits catalog n :=
  of_children h nofun nofun

lemma name {m : String} {d : Definition} (h : d.pending = false) :
    (Content.name m (some d)).Fits catalog n :=
  ⟨by simp [children], fun _ _ heq => by cases heq; exact h, fun _ c hc => by cases hc⟩

end Content.Fits

namespace Store

variable {st : Store} {id x : Nat} {catalog : Catalog}

/-- Every element fits the elements before it. -/
def Orderly (catalog : Catalog) (st : Store) : Prop := ∀ id, (st.content id).Fits catalog id

lemma Orderly.empty (catalog : Catalog) : Orderly catalog {} := fun _ => .expr (by simp)

lemma Orderly.alloc {content : Content} {span : Span} (h : st.Orderly catalog)
    (hc : content.Fits catalog st.size) : (st.alloc content span).2.Orderly catalog :=
  forall_content_alloc (Q := Content.Fits catalog) (fun _ => .expr (by simp)) h hc

lemma Kept.orderly {st' : Store} (h : Kept st st') (hst' : st'.Orderly catalog) :
    st.Orderly catalog := by
  intro id
  rcases Nat.lt_or_ge id st.size with hlt | hge
  · exact h.content_eq hlt ▸ hst' id
  · rw [content_of_size_le hge]
    exact .expr (by simp)

lemma Orderly.child_lt {content : Content} (h : st.Orderly catalog) (hc : st.content id = content)
    (hx : x ∈ content.children) : x < st.size := by
  subst hc
  have hid : id < st.size := by
    refine lt_size_of_content_ne fun hc => ?_
    simp [hc, Content.children] at hx
  exact ((h id).backward x hx).trans hid

lemma Orderly.wellFounded_isChild (h : st.Orderly catalog) :
    WellFounded fun c p => c ∈ (st.content p).children :=
  Subrelation.wf (fun {c p} hc => (h p).backward c hc) Nat.lt_wfRel.wf

end Store

end Resolvent
