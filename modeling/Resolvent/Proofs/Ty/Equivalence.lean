import Resolvent.Proofs.Ty.Unrolling
import Mathlib.Data.List.Permutation

/-!
# Equality as an equivalence

Every type equals itself, and it does not matter which of two types comes first.
-/

namespace Resolvent.Ty

variable {a b c t : Ty} {s : Site}

/-! ## Types that can be written -/

lemma Notated.node (h : t.Notated) (hs : s.In t) : s.node.Notated := by
  induction hs using Site.In.induct with
  | root => exact h
  | child r i p _ hp ih => exact ih.part (List.mem_of_getElem? hp)

lemma Notated.isDetailed_of_isSelf (h : t.Notated) (hself : t.kind.isSelf) :
    t.isDetailed = false := by
  have hother {u : Ty} {k : Kind} (o : Bool) (hk : k.isSelf = false) (hbits : u.kind.bits = k.bits)
      (hself : (u.optIf o).kind.isSelf) : (u.optIf o).isDetailed = false := by
    simp only [Kind.isSelf, bits_optIf, hbits] at hk hself
    cases hk.symm.trans hself
  have hnamed {name : String} {k : Kind} (hk : (name, k) ∈ Kind.named) : k.isSelf = false :=
    (isVar_named _ hk).2.2.2
  cases h with
  | kind o _ _ => cases o <;> rfl
  | self o => cases o <;> rfl
  | var o _ _ _ => exact hother (k := .var) o (by decide) (by rw [kind_var]; rfl) hself
  | ref o _ _ _ => exact hother (k := .ref) o (by decide) rfl hself
  | sch o _ _ => exact hother (k := .sch) o (by decide) rfl hself
  | cont o hk _ _ _ => exact hother o (hnamed hk) rfl hself
  | alt o _ _ _ _ => exact hother (k := .alt) o (by decide) rfl hself
  | composite o hk _ _ _ _ _ _ _ => exact hother o (hnamed hk) rfl hself
  | constants o hk _ _ _ => exact hother o (hnamed hk) rfl hself

lemma Notated.scoped (h : t.Notated) (henc : t.Enclosed) : t.Scoped where
  leaf _ hs := (h.node hs).isDetailed_of_isSelf
  enclosed := henc

/-! ## Deciding where self references point -/

lemma forall_in_iff {P : Site → Prop} : (∀ s : Site, s.In t → P s) ↔ ∀ path ∈ t.paths,
    ∀ s ∈ t.site? path, P s := by
  constructor
  · intro h path _ s hs
    have hpath := Site.path_of_site? hs
    exact h s (by rw [Site.In, hpath]; exact hs)
  · exact fun h s hs => h s.path hs.mem_paths s hs

instance {P : Site → Prop} [DecidablePred P] : Decidable (∀ s : Site, s.In t → P s) :=
  decidable_of_iff _ forall_in_iff.symm

instance {j : Nat} : Decidable (s.Inward t j) :=
  inferInstanceAs (Decidable (∀ z : Site, z.In t → (s.path <:+ z.path → z.node.kind.isSelf →
    z.node.kind.slot + s.path.length ≤ z.path.length + j)))

instance : Decidable t.Enclosed :=
  inferInstanceAs (Decidable
    (∀ s : Site, s.In t → (s.node.kind.isSelf → (s.enclosing? s.node.kind.slot).isSome)))

instance : Decidable t.Sealed :=
  inferInstanceAs (Decidable
    (∀ s : Site, s.In t → (s.node.kind.isSelf → ∀ z ∈ s.enclosing? s.node.kind.slot, z.Inward t 0)))

lemma aligned_of_slots (h : ∀ x : Site, x.In a → ∀ y : Site, y.In b → ∀ i < x.node.params.length,
    ∀ p ∈ x.node.params[i]?,
    ∀ q ∈ y.node.params[i]?, p.2.kind.isSelf → q.2.kind.isSelf → p.2.kind.slot = q.2.kind.slot) :
    Aligned a b := by
  intro x y hx hy _ i p q hp hq
  exact h x hx y hy i (List.getElem?_eq_some_iff.1 hp).1 p hp q hq

/-! ## The laws -/

/-- Equality is reflexive and symmetric. It is transitive as far as trees go for types in which no
self reference leaves a type that another one points at; for equality as such, the self references
of the outer two types have to be aligned too. -/
theorem equal_equivalence {sa sb sc : String} (ha : parse sa = .ok a) (hb : parse sb = .ok b)
    (hc : parse sc = .ok c) (hea : a.Enclosed) (heb : b.Enclosed) (hec : c.Enclosed) :
    equal a a ∧ equal a b = equal b a ∧ (a.Sealed → b.Sealed → c.Sealed → equal a b → equal b c →
        (∀ n, a.tree n = c.tree n) ∧ (Aligned a c → equal a c)) := by
  refine ⟨equal_self a, equal_comm a b, fun hsa hsb hsc hab hbc => ?_⟩
  have hscoped {src : String} {t : Ty} (h : parse src = .ok t) : t.Enclosed → t.Scoped :=
    (notated_of_parse h).scoped
  have htree (n : Nat) : a.tree n = c.tree n := calc
    a.tree n = b.tree n := tree_eq_of_equal (hscoped ha hea) (hscoped hb heb) hsa hsb hab n
    _ = c.tree n := tree_eq_of_equal (hscoped hb heb) (hscoped hc hec) hsb hsc hbc n
  exact ⟨htree, fun hal => equal_of_tree_eq (hscoped ha hea) (hscoped hc hec) hal htree⟩

def node (kid up : Ty) : Ty := obj "node" [("v", .int), ("kids", list kid), ("up", up.opt)]

/-- A node that links to itself both ways, and the same with the children or the node above written
out once. -/
theorem equal_equivalence_node : let a := node (self 2) (self 1)
    let b := node a (self 1)
    let c := node (self 2) a
    a.Sealed ∧ b.Sealed ∧ c.Sealed ∧ Aligned a c ∧ equal a b ∧ equal b c ∧
      equal a a ∧ equal a b = equal b a ∧ (∀ n, a.tree n = c.tree n) ∧ equal a c := by
  have ha : parse "(obj \"node\" +v int +kids list|@2 +up @1?)" = .ok (node (self 2) (self 1)) := by
    cbv
  have hb : parse "(obj \"node\" +v int +kids list|(obj \"node\" +v int +kids list|@2 +up @1?) +up @1?)" =
    .ok (node (node (self 2) (self 1)) (self 1)) := by cbv
  have hc : parse "(obj \"node\" +v int +kids list|@2 +up (obj? \"node\" +v int +kids list|@2 +up @1?))" =
    .ok (node (self 2) (node (self 2) (self 1))) := by cbv
  have hsealed : (node (self 2) (self 1)).Sealed ∧ (node (node (self 2) (self 1)) (self 1)).Sealed ∧
    (node (self 2) (node (self 2) (self 1))).Sealed := by decide
  have halign : Aligned (node (self 2) (self 1)) (node (self 2) (node (self 2) (self 1))) :=
    aligned_of_slots (by decide)
  have hab : equal (node (self 2) (self 1)) (node (node (self 2) (self 1)) (self 1)) := by decide
  have hbc : equal (node (node (self 2) (self 1)) (self 1))
    (node (self 2) (node (self 2) (self 1))) := by decide
  obtain ⟨hself, hcomm, htrans⟩ := equal_equivalence ha hb hc (by decide) (by decide) (by decide)
  obtain ⟨htree, hequal⟩ := htrans hsealed.1 hsealed.2.1 hsealed.2.2 hab hbc
  exact ⟨hsealed.1, hsealed.2.1, hsealed.2.2, halign, hab, hbc, hself, hcomm, htree, hequal halign⟩

def wrap (name : String) (t : Ty) : Ty := obj "" [(name, t)]

def fork (t u : Ty) : Ty := obj "" [("q", t), ("r", u)]

/-- Neither condition can be left out. In the first three types, which write out the same list, the
self references of the outer two have different distances. In the last three, all distances are the
same, but one self reference leaves a type that another one points at. -/
theorem equal_not_transitive :
    (∃ a b c, parse "(obj +x (obj +x (obj +x @2)))" = .ok a ∧ parse "(obj +x (obj +x @2))" = .ok b ∧
      parse "(obj +x (obj +x (obj +x (obj +x (obj +x @4)))))" = .ok c ∧ a.Enclosed ∧ b.Enclosed ∧
      c.Enclosed ∧ a.Sealed ∧ b.Sealed ∧ c.Sealed ∧ equal a b ∧ equal b c ∧ equal a c = false) ∧
    ∃ a b c, parse "(obj +p (obj +q @2 +r (obj +s @2)))" = .ok a ∧
      parse "(obj +p (obj +q @2 +r (obj +s (obj +q @2 +r @2))))" = .ok b ∧
      parse "(obj +p (obj +q @2 +r (obj +s (obj +q (obj +s (obj +q @2 +r @2)) +r @2))))" = .ok c ∧
      a.Enclosed ∧ b.Enclosed ∧ c.Enclosed ∧ Aligned a c ∧ equal a b ∧ equal b c ∧
      equal a c = false := by
  constructor
  · refine ⟨wrap "x" (wrap "x" (wrap "x" (self 2))), wrap "x" (wrap "x" (self 2)),
      wrap "x" (wrap "x" (wrap "x" (wrap "x" (wrap "x" (self 4))))), by cbv, by cbv, by cbv, ?_⟩
    decide
  · refine ⟨wrap "p" (fork (self 2) (wrap "s" (self 2))),
      wrap "p" (fork (self 2) (wrap "s" (fork (self 2) (self 2)))),
      wrap "p" (fork (self 2) (wrap "s" (fork (wrap "s" (fork (self 2) (self 2))) (self 2)))), by
        cbv, by cbv, by cbv, ?_⟩
    exact ⟨by decide, by decide, by decide, aligned_of_slots (by decide), by decide⟩

end Resolvent.Ty
