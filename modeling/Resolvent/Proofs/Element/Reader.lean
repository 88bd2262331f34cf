import Resolvent.Element.Reader
import Resolvent.Proofs.Element.Store

/-!
# What reading a source adds

A source gives raw forms: nothing in them has been looked up or made into a call.
-/

namespace Resolvent

open List

/-! ## Failures that report no residual -/

/-- A result of which `P` holds, or a failure that reports no residual. -/
def Definite {α : Type} (x : Except Failure α) (P : α → Prop) : Prop :=
  match x with
  | .ok a => P a
  | .error e => ∀ el, e ≠ .unresolved el

namespace Definite

variable {α β : Type} {x : Except Failure α} {P : α → Prop} {Q : β → Prop}

lemma bind {k : α → Except Failure β} (h : Definite x P) (hk : ∀ a, P a → Definite (k a) Q) :
    Definite (x >>= k) Q := by
  cases x with
  | ok a => exact hk a h
  | error e => exact h

lemma throw {e : Failure} (he : ∀ el, e ≠ .unresolved el) :
    Definite (.error e : Except Failure α) P := he

end Definite

namespace Form

/-! ## Raw forms -/

mutual

def isRaw : Form → Bool
  | literal _ _ | tag _ none _ => true
  | name _ d _ => d.isNone
  | tag _ (some f) _ => f.isRaw
  | decl _ args _ => areRaw args
  | expr items _ => areRaw items
  | call _ _ _ _ => false

def areRaw : List Form → Bool
  | [] => true
  | f :: fs => f.isRaw && areRaw fs

end

@[simp] lemma areRaw_append (fs gs : List Form) : areRaw (fs ++ gs) = (areRaw fs && areRaw gs) := by
  induction fs with
  | nil => simp [areRaw]
  | cons f fs ih => simp [areRaw, ih, Bool.and_assoc]

lemma definite_readType (text : String) (span : Span) :
    Definite (readType text span) fun _ => True := by
  unfold readType
  cases Ty.parse text with
  | ok t => trivial
  | error e => exact .throw nofun

mutual

lemma definite_readLiteral (t : TokenTree) : Definite (readLiteral t) fun _ => True := by
  unfold readLiteral
  split
  · trivial
  · trivial
  · trivial
  · trivial
  · trivial
  · split
    · exact .bind (definite_readType _ _) fun _ _ => trivial
    · exact .throw nofun
  · next items _ => exact .bind (definite_readLiterals items) fun _ _ => trivial
  · next items _ => exact .bind (definite_readEntries items) fun _ _ => trivial
  · exact .throw nofun

lemma definite_readLiterals (ts : List TokenTree) : Definite (readLiterals ts) fun _ => True := by
  match ts with
  | [] => trivial
  | t :: ts => exact .bind (definite_readLiteral t) fun _
      _ => .bind (definite_readLiterals ts) fun _ _ => trivial

lemma definite_readEntries (ts : List TokenTree) : Definite (readEntries ts) fun _ => True := by
  match ts with
  | [] => trivial
  | key :: rest =>
    have hkey (k : String → Except Failure (List (String × Val)))
      (hk : ∀ s, Definite (k s) fun _ => True) : Definite (match key with
          | .leaf (.symbol s) _ => pure s >>= k
          | .leaf (.str s) _ => pure s >>= k
          | t => throw (.read .noKey t.span) >>= k) fun _ => True := by
      split
      · exact hk _
      · exact hk _
      · exact .throw nofun
    unfold readEntries
    split
    · next t rest =>
      exact hkey _ fun _ => .bind (definite_readLiteral t) fun _ _ =>
        .bind (definite_readEntries rest) fun _ _ => trivial
    · exact hkey _ fun _ => .throw nofun
    · next word span rest =>
      have hrest (key : String) (v : Val) : Definite (do return (key, v) :: (← readEntries rest))
        fun _ => True := .bind (definite_readEntries rest) fun _ _ => trivial
      refine hkey _ fun key => ?_
      split
      · exact hrest key (.bool true)
      · exact hrest key (.bool false)
      · exact hrest key .null
      · exact .throw nofun
    · exact hkey _ fun _ => .throw nofun

end

def Sibling.isRaw : Sibling → Bool
  | ordinary f => f.isRaw
  | _ => true

def Grouping.isRaw (g : Grouping) : Bool := areRaw (g.loose.map (·.1)) && areRaw g.settled

lemma Grouping.isRaw_add {s : Sibling} {g : Grouping} (hs : s.isRaw) (hg : g.isRaw) :
    (g.add s).isRaw := by
  cases s with
  | ordinary f => simp_all [add, isRaw, areRaw, Sibling.isRaw]
  | tag n span =>
    unfold add
    dsimp only
    split
    · simp_all [isRaw, areRaw, Form.isRaw]
    · simp_all [isRaw, areRaw, Form.isRaw]
  | decl n span => simp_all [add, isRaw, areRaw, Form.isRaw]
  | naked span => simp_all [add, isRaw, areRaw, Form.isRaw]

lemma areRaw_group {siblings : List Sibling} (h : ∀ s ∈ siblings, s.isRaw) :
    areRaw (group siblings) := by
  have hraw : (siblings.foldr Grouping.add {}).isRaw := by
    induction siblings with
    | nil => rfl
    | cons s siblings ih =>
      exact Grouping.isRaw_add (h s (by simp)) (ih fun s hs => h s (by simp [hs]))
  rwa [Grouping.isRaw, ← areRaw_append] at hraw

mutual

lemma definite_readSibling (source : List Char) (t : TokenTree) :
    Definite (readSibling source t) fun s => s.isRaw := by
  unfold readSibling
  split
  · rfl
  · rfl
  · rfl
  · split
    · exact .bind (definite_readType _ _) fun _ _ => rfl
    · rfl
  · rfl
  · next children span =>
    split
    · exact .bind (definite_readType _ _) fun _ _ => rfl
    · exact .bind (definite_readSiblings source children) fun siblings h => areRaw_group h
  · exact .bind (definite_readLiteral _) fun _ _ => rfl

lemma definite_readSiblings (source : List Char) (ts : List TokenTree) :
    Definite (readSiblings source ts) fun siblings => ∀ s ∈ siblings, s.isRaw := by
  match ts with
  | [] => exact nofun
  | t :: ts =>
    refine .bind (definite_readSibling source t) fun s hs =>
      .bind (definite_readSiblings source ts) fun ss hss => ?_
    exact forall_mem_cons.2 ⟨hs, hss⟩

end

lemma definite_readTrees (source : List Char) : Definite (readTrees source) fun _ => True := by
  unfold readTrees
  dsimp only
  split
  · exact .throw nofun
  split
  · exact .throw nofun
  · trivial

lemma definite_read (source : String) : Definite (read source) fun forms => areRaw forms :=
  .bind (definite_readTrees _) fun _ _ => .bind (definite_readSiblings _ _) fun _ h =>
    areRaw_group h

/-! ## What a failure leaves -/

lemma areRaw_complete {siblings : List Sibling} (h : ∀ s ∈ siblings, s.isRaw) :
    areRaw (complete siblings) := by
  have htail (p : Bool) (ss : List Sibling) (hss : ss ⊆ siblings) :
    areRaw (group (if p then ss.tail else ss).reverse) := by
    refine areRaw_group fun s hs => h s (hss ?_)
    cases p with
    | false => exact mem_reverse.1 hs
    | true => exact mem_of_mem_tail (mem_reverse.1 hs)
  rw [complete, areRaw_append, Bool.and_eq_true]
  exact ⟨htail _ _ (dropWhile_subset _), htail _ _ (takeWhile_subset _)⟩

mutual

lemma areRaw_leavings (source : List Char) (t : TokenTree) : areRaw (leavings source t) := by
  unfold leavings
  split
  · next children _ =>
    split
    · rfl
    · exact areRaw_leavingsAfter source children nofun
  · rfl

lemma areRaw_leavingsAfter (source : List Char) {siblings : List Sibling} (ts : List TokenTree)
    (h : ∀ s ∈ siblings, s.isRaw) : areRaw (leavingsAfter source siblings ts) := by
  match ts with
  | [] => rfl
  | t :: ts =>
    have ht := definite_readSibling source t
    unfold leavingsAfter
    split
    · next s hs =>
      rw [hs] at ht
      exact areRaw_leavingsAfter source ts (forall_mem_cons.2 ⟨ht, h⟩)
    · simp [areRaw_complete h, areRaw_leavings source t]

end

lemma areRaw_leftover (source : String) : areRaw (leftover source) := by
  unfold leftover
  dsimp only
  split
  · exact areRaw_leavingsAfter _ _ nofun
  · rfl

end Form

namespace Store

variable {catalog : Catalog}

/-! ## Adding forms -/

structure Added (catalog : Catalog) (st : Store) (ids : List Nat) (st' : Store) : Prop where
  kept : st.Kept st'
  orderly : st'.Orderly catalog
  lt_size : ∀ id ∈ ids, id < st'.size

lemma Added.refl {st : Store} (h : st.Orderly catalog) : st.Added catalog [] st :=
  ⟨.refl _, h, nofun⟩

lemma Added.alloc {st st' : Store} {ids : List Nat} {content : Content} {span : Span}
    (h : st.Added catalog ids st') (hchildren : content.children ⊆ ids)
    (hname : ∀ m d, content ≠ .name m (some d)) (hcall : ∀ c, content ≠ .call c) :
    st.Added catalog [(st'.alloc content span).1] (st'.alloc content span).2 where
  kept := h.kept.trans (.alloc _ _ _)
  orderly := h.orderly.alloc (.of_children (fun c hc => h.lt_size c (hchildren hc)) hname hcall)
  lt_size := by simp

mutual

lemma added_insert {st : Store} (h : st.Orderly catalog) :
    ∀ f : Form, f.isRaw → st.Added catalog [(st.insert f).1] (st.insert f).2
  | .literal v span, _ => (Added.refl h).alloc (by simp [Content.children]) nofun nofun
  | .name n none span, _ => (Added.refl h).alloc (by simp [Content.children]) nofun nofun
  | .tag n none span, _ => (Added.refl h).alloc (by simp [Content.children]) nofun nofun
  | .tag n (some f) span,
      hraw => (added_insert h f hraw).alloc (by simp [Content.children]) nofun nofun
  | .decl n args span, hraw => (added_insertAll h args hraw).alloc (Subset.refl _) nofun nofun
  | .expr items span, hraw => (added_insertAll h items hraw).alloc (Subset.refl _) nofun nofun

lemma added_insertAll {st : Store} (h : st.Orderly catalog) :
    ∀ fs : List Form, Form.areRaw fs → st.Added catalog (st.insertAll fs).1 (st.insertAll fs).2
  | [], _ => .refl h
  | f :: fs, hraw => by
    simp only [Form.areRaw, Bool.and_eq_true] at hraw
    have hf := added_insert h f hraw.1
    have hfs := added_insertAll hf.orderly fs hraw.2
    refine ⟨hf.kept.trans hfs.kept, hfs.orderly, forall_mem_cons.2 ⟨?_, hfs.lt_size⟩⟩
    exact (hf.lt_size _ (by simp)).trans_le hfs.kept.size_le

end

end Store

end Resolvent
