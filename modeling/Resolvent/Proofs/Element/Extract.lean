import Resolvent.Proofs.Element.Depth
import Mathlib.Algebra.GroupWithZero.Nat
import Mathlib.Data.List.Forall2

/-!
# Copies of stores

Extracting copies what is below some elements into a store of its own, and is the same as reading
off the forms below them and adding these to an empty store.
-/

namespace Resolvent.Store

open List

variable {st st' : Store} {id : Nat} {roots : List Nat} {span : Span} {N : String → Prop} {n : Nat}

/-! ## Adding forms -/

mutual

lemma kept_insert (st : Store) : (f : Form) → st.Kept (st.insert f).2
  | .literal _ _ | .name _ _ _ | .tag _ none _ => .alloc _ _ _
  | .tag _ (some f) _ => (kept_insert st f).trans (.alloc _ _ _)
  | .decl _ args _ => (kept_insertAll st args).trans (.alloc _ _ _)
  | .expr items _ => (kept_insertAll st items).trans (.alloc _ _ _)
  | .call _ groups _ _ => (kept_insertGroups st groups).trans (.alloc _ _ _)

lemma kept_insertAll (st : Store) : (fs : List Form) → st.Kept (st.insertAll fs).2
  | [] => .refl _
  | f :: fs => (kept_insert st f).trans (kept_insertAll _ fs)

lemma kept_insertGroups (st : Store) : (groups : List (List Form)) →
    st.Kept (st.insertGroups groups).2
  | [] => .refl _
  | fs :: groups => (kept_insertAll st fs).trans (kept_insertGroups _ groups)

end

mutual

lemma size_insert (st : Store) : (f : Form) → (st.insert f).2.size = st.size + f.size
  | .literal _ _ | .name _ _ _ | .tag _ none _ => size_alloc ..
  | .tag _ (some f) _ => by rw [insert, size_alloc, size_insert st f, Form.size]; omega
  | .decl _ fs _ | .expr fs _ => by rw [insert, size_alloc, size_insertAll st fs, Form.size]; omega
  | .call _ groups _ _ => by rw [insert, size_alloc, size_insertGroups st groups, Form.size]; omega

lemma size_insertAll (st : Store) :
    (fs : List Form) → (st.insertAll fs).2.size = st.size + Form.sizeAll fs
  | [] => rfl
  | f :: fs => by rw [insertAll, size_insertAll, size_insert, Form.sizeAll, Nat.add_assoc]

lemma size_insertGroups (st : Store) : (groups : List (List Form)) →
    (st.insertGroups groups).2.size = st.size + Form.sizeGroups groups
  | [] => rfl
  | fs :: groups => by rw [insertGroups, size_insertGroups, size_insertAll, Form.sizeGroups,
      Nat.add_assoc]

end

lemma sizeAll_eq (fs : List Form) : Form.sizeAll fs = (fs.map Form.size).sum := by
  induction fs with
  | nil => rfl
  | cons f fs ih => rw [Form.sizeAll, ih, map_cons, sum_cons]

/-! ## Forms below elements -/

/-- The form below an element, reference by reference. -/
inductive Shows (st : Store) : Nat → Form → Prop where
  | literal {id : Nat} {v : Val} {span : Span} (h : st.elements[id]? = some ⟨.literal v, span⟩) :
      Shows st id (.literal v span)
  | name {id : Nat} {n : String} {d : Option Definition} {span : Span}
      (h : st.elements[id]? = some ⟨.name n d, span⟩) : Shows st id (.name n d span)
  | tag {id : Nat} {n : String} {span : Span} (h : st.elements[id]? = some ⟨.tag n none, span⟩) :
      Shows st id (.tag n none span)
  | tagged {id c : Nat} {n : String} {f : Form} {span : Span}
      (h : st.elements[id]? = some ⟨.tag n (some c), span⟩)
      (hc : Shows st c f) : Shows st id (.tag n (some f) span)
  | decl {id : Nat} {n : String} {args : List Nat} {fs : List Form} {span : Span}
      (h : st.elements[id]? = some ⟨.decl n args, span⟩) (hargs : args.Forall₂ st.Shows fs) :
      Shows st id (.decl n fs span)
  | expr {id : Nat} {items : List Nat} {fs : List Form} {span : Span}
      (h : st.elements[id]? = some ⟨.expr items, span⟩) (hitems : items.Forall₂ st.Shows fs) :
      Shows st id (.expr fs span)
  | call {id : Nat} {c : Call} {groups : List (List Form)} {span : Span}
      (h : st.elements[id]? = some ⟨.call c, span⟩)
      (hgroups : c.groups.Forall₂ (Forall₂ st.Shows) groups) :
      Shows st id (.call c.callable groups c.sig span)

lemma getElem?_of_lt (h : id < st.size) : st.elements[id]? = some ⟨st.content id, st.span id⟩ := by
  rw [content, span, get, Array.getElem?_eq_getElem (show id < st.elements.size from h)]
  cases st.elements[id]
  rfl

lemma Shows.lt_size {f : Form} (h : st.Shows id f) : id < st.size := by
  have hsome : ∃ e, st.elements[id]? = some e := by cases h <;> exact ⟨_, ‹_›⟩
  obtain ⟨e, he⟩ := hsome
  exact (Array.getElem?_eq_some_iff.1 he).1

lemma Kept.getElem?_alloc {c : Content} (h : (st.alloc c span).2.Kept st') :
    st'.elements[(st.alloc c span).1]? = some ⟨c, span⟩ := by
  have hlt : st.size < (st.alloc c span).2.size := by simp
  rw [alloc_fst, getElem?_of_lt (hlt.trans_le h.size_le), Store.content, Store.span, h.get _ hlt,
    get_alloc_size]

mutual

lemma Kept.shows_insert {st st' : Store} : (f : Form) → (st.insert f).2.Kept st' →
    st'.Shows (st.insert f).1 f
  | .literal _ _, h => .literal h.getElem?_alloc
  | .name _ _ _, h => .name h.getElem?_alloc
  | .tag _ none _, h => .tag h.getElem?_alloc
  | .tag _ (some f) _, h => .tagged h.getElem?_alloc (shows_insert f ((alloc ..).trans h))
  | .decl _ fs _, h => .decl h.getElem?_alloc (shows_insertAll fs ((alloc ..).trans h))
  | .expr fs _, h => .expr h.getElem?_alloc (shows_insertAll fs ((alloc ..).trans h))
  | .call _ groups _ _, h => .call h.getElem?_alloc (shows_insertGroups groups ((alloc ..).trans h))

lemma Kept.shows_insertAll {st st' : Store} : (fs : List Form) → (st.insertAll fs).2.Kept st' →
    (st.insertAll fs).1.Forall₂ st'.Shows fs
  | [], _ => .nil
  | f :: fs, h => .cons (shows_insert f ((kept_insertAll _ fs).trans h)) (shows_insertAll fs h)

lemma Kept.shows_insertGroups {st st' : Store} : (groups : List (List Form)) →
    (st.insertGroups groups).2.Kept st' →
    (st.insertGroups groups).1.Forall₂ (Forall₂ st'.Shows) groups
  | [], _ => .nil
  | fs :: groups, h => .cons (shows_insertAll fs ((kept_insertGroups _ groups).trans h))
      (shows_insertGroups groups h)

end

lemma Shows.forall_lt_size {ids : List Nat} {fs : List Form} (h : ids.Forall₂ st.Shows fs) :
    ∀ c ∈ ids, c < st.size :=
  ((forall₂_and_left _ _).1 (h.imp fun _ _ h => ⟨h.lt_size, h⟩)).1

lemma Shows.forall_lt_size_flatten {groups : List (List Nat)} {gs : List (List Form)}
    (h : groups.Forall₂ (Forall₂ st.Shows) gs) : ∀ c ∈ groups.flatten, c < st.size :=
  forall_mem_flatten.2 ((forall₂_and_left _ _).1 (h.imp fun _ _ h => ⟨forall_lt_size h, h⟩)).1

/-! ## References -/

def Backward (st : Store) : Prop := ∀ id, ∀ c ∈ (st.content id).children, c < id

lemma Backward.empty : Backward {} := fun _ => by simp [content, get, missing, Content.children]

lemma Backward.alloc {content : Content} (h : st.Backward)
    (hc : ∀ c ∈ content.children, c < st.size) : (st.alloc content span).2.Backward :=
  forall_content_alloc (Q := fun id content => ∀ c ∈ content.children,
    c < id) (by simp [Content.children]) h hc

mutual

lemma Backward.insert {st : Store} (h : st.Backward) : (f : Form) → (st.insert f).2.Backward
  | .literal _ _ | .name _ _ _ | .tag _ none _ => h.alloc (by simp [Content.children])
  | .tag _ (some f) _ => (h.insert f).alloc (by simpa [Content.children]
      using ((Kept.refl _).shows_insert f).lt_size)
  | .decl _ fs _ | .expr fs _ =>
    (h.insertAll fs).alloc (Shows.forall_lt_size ((Kept.refl _).shows_insertAll fs))
  | .call _ groups _ _ =>
    (h.insertGroups groups).alloc
    (Shows.forall_lt_size_flatten ((Kept.refl _).shows_insertGroups groups))

lemma Backward.insertAll {st : Store} (h : st.Backward) :
    (fs : List Form) → (st.insertAll fs).2.Backward
  | [] => h
  | f :: fs => (h.insert f).insertAll fs

lemma Backward.insertGroups {st : Store} (h : st.Backward) : (groups : List (List Form)) →
    (st.insertGroups groups).2.Backward
  | [] => h
  | fs :: groups => (h.insertAll fs).insertGroups groups

end

/-! ## Reading off forms -/

lemma Shallow.shows_unfoldWithin (h : st.Shallow N n id) : st.Shows id (st.unfoldWithin n id) := by
  induction n generalizing id with
  | zero => exact h.elim
  | succ n ih =>
    have hget := getElem?_of_lt h.lt_size
    have hall {ids : List Nat} (hids : ids ⊆ (st.content id).children) :
      ids.Forall₂ st.Shows (ids.map (st.unfoldWithin n)) :=
      forall₂_map_right_iff.2 (forall₂_same.2 fun c hc => ih (h.child rfl (hids hc)))
    rw [unfoldWithin]
    cases hc : st.content id with
    | literal v => exact .literal (hc ▸ hget)
    | name m d => exact .name (hc ▸ hget)
    | tag m el =>
      cases el with
      | none => exact .tag (hc ▸ hget)
      | some c => exact .tagged (hc ▸ hget) (ih (h.child hc (by simp [Content.children])))
    | decl m args => exact .decl (hc ▸ hget) (hall (by simp [hc, Content.children]))
    | expr items => exact .expr (hc ▸ hget) (hall (by simp [hc, Content.children]))
    | call c =>
      refine .call (hc ▸ hget)
        (forall₂_map_right_iff.2 (forall₂_same.2 fun g hg => hall fun a ha => ?_))
      exact hc ▸ mem_flatten.2 ⟨g, hg, ha⟩

lemma Shallow.unfoldWithin_eq (h : st.Shallow N n id) (hk : Kept st st') (m : Nat) :
    st'.unfoldWithin (n + m) id = st.unfoldWithin n id := by
  induction n generalizing id with
  | zero => exact h.elim
  | succ n ih =>
    have hall {ids : List Nat} (hids : ids ⊆ (st.content id).children) :
        ids.map (st'.unfoldWithin (n + m)) = ids.map (st.unfoldWithin n) :=
      map_congr_left fun c hc => ih (h.child rfl (hids hc))
    rw [Nat.add_right_comm, unfoldWithin, unfoldWithin, hk.content_eq h.lt_size, span,
      hk.get id h.lt_size]
    cases hc : st.content id with
    | literal v => rfl
    | name m d => rfl
    | tag m el =>
      cases el with
      | none => rfl
      | some c => exact congrArg (Form.tag m · _) (congrArg some
          (ih (h.child hc (by simp [Content.children]))))
    | decl m args => exact congrArg (Form.decl m · _) (hall (by simp [hc, Content.children]))
    | expr items => exact congrArg (Form.expr · _) (hall (by simp [hc, Content.children]))
    | call c =>
      refine congrArg (Form.call c.callable · c.sig _) (map_congr_left fun g hg =>
        hall fun a ha => ?_)
      exact hc ▸ mem_flatten.2 ⟨g, hg, ha⟩

lemma Kept.unfold_eq (h : Kept st st') (hid : st.Shallow ⊤ st.size id) :
    st'.unfold id = st.unfold id := by
  obtain ⟨m, hm⟩ := Nat.exists_eq_add_of_le h.size_le
  rw [unfold, unfold, hm, hid.unfoldWithin_eq h]

/-! ## Copying -/

section Copy

variable {copy : Nat → StateM Store Nat} {form : Nat → Form}

lemma run_mapM_copy (h : ∀ id out, (copy id).run out = pure (insert out (form id))) (ids : List Nat)
    (out : Store) : (ids.mapM copy).run out = pure (out.insertAll (ids.map form)) := by
  induction ids generalizing out with
  | nil => rfl
  | cons id ids ih => simp [h, ih, insertAll]

lemma run_mapM_mapM_copy (h : ∀ id out, (copy id).run out = pure (insert out (form id)))
    (groups : List (List Nat)) (out : Store) :
    (groups.mapM fun ids : List Nat => ids.mapM copy).run out =
    pure (out.insertGroups (groups.map (·.map form))) := by
  induction groups generalizing out with
  | nil => rfl
  | cons ids groups ih => simp [run_mapM_copy h, ih, insertGroups]

end Copy

lemma run_copy (st : Store) (depth id : Nat) (out : Store) :
    (st.copy depth id).run out = pure (out.insert (st.unfoldWithin depth id)) := by
  induction depth generalizing id out with
  | zero => rfl
  | succ depth ih =>
    rw [copy, unfoldWithin]
    cases st.content id with
    | literal v => rfl
    | name n d => rfl
    | tag n el =>
      cases el with
      | none => rfl
      | some el => simp [-alloc_fst, ih, insert]
    | decl n args => simp [-alloc_fst, run_mapM_copy ih, insert]
    | expr items => simp [-alloc_fst, run_mapM_copy ih, insert]
    | call c => simp [-alloc_fst, run_mapM_mapM_copy ih, insert]

lemma extract_eq (st : Store) (roots : List Nat) :
    st.extract roots = insertAll {} (roots.map st.unfold) :=
  run_mapM_copy (st.run_copy st.size) roots {}

lemma Kept.extract_eq (h : Kept st st') (hroots : ∀ r ∈ roots, st.Shallow ⊤ st.size r) :
    st'.extract roots = st.extract roots := by
  rw [Store.extract_eq, Store.extract_eq, map_congr_left fun r hr => h.unfold_eq (hroots r hr)]

/-- Extracting copies the forms below the roots, an element once for each way to it. -/
theorem extract_shows (h : st.Founded) (hroots : ∀ r ∈ roots, r < st.size) :
    ∃ fs, roots.Forall₂ st.Shows fs ∧ (st.extract roots).1.Forall₂ (st.extract roots).2.Shows fs ∧
      (st.extract roots).1.length = roots.length ∧
      (∀ r ∈ (st.extract roots).1, r < (st.extract roots).2.size) ∧
      (∀ id, ∀ c ∈ ((st.extract roots).2.content id).children, c < id ∧
      id < (st.extract roots).2.size) ∧ (st.extract roots).2.size = (fs.map Form.size).sum := by
  refine ⟨roots.map st.unfold, ?_, ?_⟩
  · exact List.forall₂_map_right_iff.2 (List.forall₂_same.2 fun r hr =>
      (h.shallow (hroots r hr)).shows_unfoldWithin)
  rw [extract_eq]
  have hshows := (Kept.refl (insertAll {} (roots.map st.unfold)).2).shows_insertAll
    (roots.map st.unfold)
  have hback : (insertAll {} (roots.map st.unfold)).2.Backward := Backward.empty.insertAll _
  refine ⟨hshows, ?_, Shows.forall_lt_size hshows, fun id c hc => ⟨hback id c hc, ?_⟩, ?_⟩
  · rw [hshows.length_eq, List.length_map]
  · refine lt_size_of_content_ne fun hmissing => ?_
    simp [hmissing, Content.children] at hc
  · rw [size_insertAll, sizeAll_eq]
    exact Nat.zero_add _

def shared : Store := ⟨#[⟨.decl "x" [1, 1], ⟨0, 4⟩⟩, ⟨.name "y" none, ⟨2, 3⟩⟩]⟩

theorem extract_shows_shared : ∃ fs, [0, 1].Forall₂ shared.Shows fs ∧
    (shared.extract [0, 1]).1.Forall₂ (shared.extract [0, 1]).2.Shows fs ∧
      (shared.extract [0, 1]).2.size = (fs.map Form.size).sum := by
  have hrefers {p c : Nat} (h : shared.Refers p c) : p = 0 ∧ c = 1 := by
    obtain rfl | rfl | hp : p = 0 ∨ p = 1 ∨ shared.size ≤ p := by
      change p = 0 ∨ p = 1 ∨ 2 ≤ p; omega
    · simpa [Refers, content, get, shared, Content.children] using h
    · simp [Refers, content, get, shared, Content.children] at h
    · simp [Refers, content_of_size_le hp, Content.children] at h
  have hfounded : shared.Founded := by
    refine ⟨fun {p c} h => ?_, Subrelation.wf (fun {c p} h => ?_) (measure fun id => 1 - id).wf⟩
    · rw [(hrefers h).2]
      decide
    · obtain ⟨rfl, rfl⟩ := hrefers h
      exact Nat.zero_lt_one
  obtain ⟨fs, hfs, hcopy, -, -, -, hsize⟩ :=
    extract_shows hfounded (show ∀ r ∈ [0, 1], r < shared.size by decide)
  exact ⟨fs, hfs, hcopy, hsize⟩

end Resolvent.Store
