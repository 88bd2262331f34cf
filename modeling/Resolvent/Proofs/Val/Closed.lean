import Resolvent.Operator.Reduce
import Mathlib.Data.List.Basic

/-!
# Classes of values that operators do not leave

A class of values is closed if it holds all values without parts, a container exactly if it holds
what is in there, and the types of its values.
-/

namespace Resolvent

open List Option

lemma foldlM_preserves {α β ε : Type} {f : β → α → Except ε β} {xs : List α} {acc out : β}
    {P : β → Prop} (h : xs.foldlM f acc = .ok out) (hacc : P acc)
    (hstep : ∀ b, ∀ x ∈ xs, ∀ b', P b → f b x = .ok b' → P b') : P out := by
  induction xs generalizing acc with
  | nil =>
    cases h
    exact hacc
  | cons x xs ih =>
    rw [foldlM_cons] at h
    cases hnext : f acc x with
    | error e =>
      rw [hnext] at h
      cases h
    | ok next =>
      rw [hnext] at h
      exact ih h (hstep acc x (by simp) next hacc hnext) fun b y hy => hstep b y (by simp [hy])

lemma exists_of_mem_mapM {α β : Type} {f : α → Option β} {xs : List α} {ys : List β}
    (h : xs.mapM f = some ys) : ∀ y ∈ ys, ∃ x ∈ xs, f x = some y := by
  induction xs generalizing ys with
  | nil =>
    cases h
    nofun
  | cons x xs ih =>
    rw [mapM_cons] at h
    obtain ⟨y, hy, h⟩ := bind_eq_some_iff.1 h
    obtain ⟨ys, hys, h⟩ := bind_eq_some_iff.1 h
    cases h
    intro z hz
    rcases mem_cons.1 hz with rfl | hz
    · exact ⟨x, by simp, hy⟩
    · obtain ⟨x', hx', hz⟩ := ih hys z hz
      exact ⟨x', by simp [hx'], hz⟩

namespace Val

variable {v w : Val} {vs ws : List Val} {t : Ty}

def isAtom : Val → Bool
  | null | bool _ | int _ | real _ | str _ => true
  | list _ | dict _ | typ _ | fn _ => false

/-- The class holds all values without parts, containers with what is in there, and the types of its
values. -/
structure Closed (P : Val → Prop) : Prop where
  atom : ∀ {v}, v.isAtom → P v
  list : ∀ {items}, P (.list items) ↔ ∀ v ∈ items, P v
  dict : ∀ {entries}, P (.dict entries) ↔ ∀ p ∈ entries, P p.2
  typeOf : ∀ {v}, P v → P (.typ v.typeOf)
  void : P (.typ .void)

lemma convert_eq_ok (h : convert t v = .ok w) : w = v ∨ w = typ v.typeOf ∨
    (∃ elem items ws, v = list items ∧ convertAll elem items = .ok ws ∧ w = list ws) ∨
    w.isAtom := by
  have hatom {o : Option Val} {e : EvalCause} (ho : ∀ u ∈ o, u.isAtom)
    (h : o.elim (.error e) Except.ok = .ok w) : w.isAtom := by
    cases o with
    | none => cases h
    | some u =>
      cases h
      exact ho w rfl
  unfold convert at h
  split_ifs at h
  · exact .inl (Except.ok.inj h).symm
  · cases h
    simp [isAtom]
  · exact .inr (.inr (.inr (hatom (by simp [isAtom]) h)))
  · exact .inr (.inr (.inr (hatom (by simp [isAtom]) h)))
  · cases h
    simp [isAtom]
  · exact .inr (.inl (Except.ok.inj h).symm)
  · split at h
    · exact .inl (Except.ok.inj h).symm
    · cases h
  · cases v with
    | list items =>
      cases helem : t.elem? with
      | none =>
        rw [helem] at h
        exact .inl (Except.ok.inj h).symm
      | some elem =>
        rw [helem] at h
        cases hws : convertAll elem items with
        | error e => simp [hws] at h
        | ok ws =>
          simp only [hws] at h
          exact .inr (.inr (.inl ⟨elem, items, ws, rfl, hws, (Except.ok.inj h).symm⟩))
    | _ => cases h

namespace Closed

variable {P : Val → Prop}

mutual

lemma convert (hP : Closed P) : (v : Val) → P v → ∀ t w, Val.convert t v = .ok w → P w
  | .list items, hv, t, w, h => by
    rcases convert_eq_ok h with rfl | rfl | ⟨elem, items', ws, heq, hws, rfl⟩ | hw
    · exact hv
    · exact hP.typeOf hv
    · cases heq
      exact hP.list.2 (convertAll hP items (hP.list.1 hv) elem ws hws)
    · exact hP.atom hw
  | .null, hv, t, w, h | .bool _, hv, t, w, h | .int _, hv, t, w, h | .real _, hv, t, w,
      h | .str _, hv, t, w, h
  | .dict _, hv, t, w, h | .typ _, hv, t, w, h | .fn _, hv, t, w, h => by
    rcases convert_eq_ok h with rfl | rfl | ⟨elem, items, ws, heq, -⟩ | hw
    · exact hv
    · exact hP.typeOf hv
    · cases heq
    · exact hP.atom hw

lemma convertAll (hP : Closed P) : (vs : List Val) → (∀ v ∈ vs, P v) → ∀ t ws, Val.convertAll t vs =
    .ok ws → ∀ w ∈ ws, P w
  | [], _, t, ws, h => by
    cases h
    nofun
  | v :: vs, hvs, t, ws, h => by
    rw [Val.convertAll] at h
    cases hw : Val.convert t v with
    | error e =>
      rw [hw] at h
      cases h
    | ok w =>
      cases hws : Val.convertAll t vs with
      | error e =>
        rw [hw, hws] at h
        cases h
      | ok ws =>
        rw [hw, hws] at h
        cases h
        have hrest := convertAll hP vs (fun u hu => hvs u (by simp [hu])) t ws hws
        exact forall_mem_cons.2 ⟨convert hP v (hvs v (by simp)) t w hw, hrest⟩

end

variable (hP : Closed P)
include hP

lemma zero? (h : Val.zero? t = some v) : P v := by
  unfold Val.zero? at h
  split_ifs at h <;> cases h <;>
    first | exact hP.atom rfl | exact hP.dict.2 nofun | exact hP.list.2 nofun | exact hP.void

lemma construct (hvs : ∀ v ∈ vs, P v) (h : Val.construct t vs = .ok w) : P w := by
  revert h
  fun_cases Val.construct t vs with
  | case1 =>
    intro h
    cases hz : Val.zero? t with
    | none =>
      rw [hz] at h
      cases h
    | some u =>
      rw [hz] at h
      cases h
      exact hP.zero? hz
  | case2 v => exact fun h => hP.convert v (hvs v (by simp)) t w h
  | case3 vs =>
    intro h
    cases hws : Val.convertAll (t.elem?.getD .any) vs with
    | error e =>
      rw [hws] at h
      cases h
    | ok ws =>
      rw [hws] at h
      cases h
      exact hP.list.2 (hP.convertAll vs hvs _ ws hws)
  | case4 => nofun

lemma path? {keys : List String} (hv : P v) (h : v.path? keys = some w) : P w := by
  have hfield {v u : Val} {k : String} (hv : P v) (hu : v.field? k = some u) : P u := by
    unfold field? at hu
    split at hu
    · next entries =>
      obtain ⟨p, hp, rfl⟩ := map_eq_some_iff.1 hu
      exact hP.dict.1 hv p (mem_of_find?_eq_some hp)
    · cases hu
  induction keys generalizing v with
  | nil =>
    cases h
    exact hv
  | cons k keys ih =>
    obtain ⟨u, hu, hw⟩ := bind_eq_some_iff.1 h
    refine ih ?_ hw
    split at hu
    · exact hP.list.1 hv u (mem_of_getElem? hu)
    · exact hfield hv hu

end Closed

end Val

/-! ## Reductions -/

namespace Reduce

variable {v : Val}

lemma atom_plus {a b : Val} (h : plus a b = .ok v) : v.isAtom := by
  unfold plus at h
  split at h
  · dsimp only at h
    split at h <;> cases h
    rfl
  · split at h <;> cases h
    rfl

lemma atom_sum : ∀ vs v, sum vs = .ok v → v.isAtom := by
  intro vs v h
  exact foldlM_preserves (P := fun v => v.isAtom) h rfl fun _ _ _ _ _ hplus => atom_plus hplus

lemma atom_concat : ∀ vs v, concat vs = .ok v → v.isAtom := by
  rintro vs _ ⟨⟩
  rfl

lemma atom_truth : ∀ vs v, truth vs = .ok v → v.isAtom := by
  rintro vs _ ⟨⟩
  rfl

lemma atom_equality : ∀ vs v, equality vs = .ok v → v.isAtom := by
  rintro vs _ ⟨⟩
  rfl

lemma atom_order : ∀ vs v, order vs = .ok v → v.isAtom := by
  intro vs v h
  unfold order at h
  cases hi : increasing vs with
  | error e =>
    rw [hi] at h
    cases h
  | ok b =>
    rw [hi] at h
    cases h
    rfl

end Reduce

namespace Val.Closed

open Reduce

variable {P : Val → Prop} (hP : Closed P) {v : Val} {groups : List (List Val)}
include hP

lemma append (hgroups : ∀ g ∈ groups, ∀ v ∈ g, P v) (h : Reduce.append groups = .ok v) : P v := by
  have hrest : ∀ v ∈ groups.tail.flatten, P v := by
    intro v hv
    obtain ⟨g, hg, hv⟩ := mem_flatten.1 hv
    exact hgroups g (mem_of_mem_tail hg) v hv
  unfold Reduce.append at h
  split at h
  · next items hhead =>
    cases h
    obtain ⟨g, hg, hitems⟩ := bind_eq_some_iff.1 hhead
    have hlist : P (.list items) := hgroups g (mem_of_mem_head? hg) _ (mem_of_mem_head? hitems)
    refine hP.list.2 fun v hv => ?_
    exact (mem_append.1 hv).elim (hP.list.1 hlist v) (hrest v)
  · cases h
  · cases h
    exact hP.list.2 hrest

omit hP in
lemma setEntry {key : String} {entries : List (String × Val)} (hv : P v)
    (h : ∀ p ∈ entries, P p.2) : ∀ p ∈ Reduce.setEntry key v entries, P p.2 := by
  induction entries with
  | nil => simpa [Reduce.setEntry] using hv
  | cons p entries ih =>
    have hrest := ih fun q hq => h q (by simp [hq])
    unfold Reduce.setEntry
    split
    · exact forall_mem_cons.2 ⟨hv, fun q hq => h q (by simp [hq])⟩
    · exact forall_mem_cons.2 ⟨h p (by simp), hrest⟩

lemma mergeInto {acc entries : List (String × Val)} (hacc : ∀ p ∈ acc, P p.2) (hv : P v)
    (h : Reduce.mergeInto acc v = .ok entries) : ∀ p ∈ entries, P p.2 := by
  cases v with
  | dict added =>
    cases h
    replace hv := hP.dict.1 hv
    induction added generalizing acc with
    | nil => exact hacc
    | cons p added ih =>
      exact ih (setEntry (hv p (by simp)) hacc) fun q hq => hv q (by simp [hq])
  | _ => cases h

lemma merge {vs : List Val} (hvs : ∀ v ∈ vs, P v) (h : Reduce.merge vs = .ok v) : P v := by
  unfold Reduce.merge at h
  cases hentries : vs.foldlM Reduce.mergeInto [] with
  | error e =>
    rw [hentries] at h
    cases h
  | ok entries =>
    rw [hentries] at h
    cases h
    refine hP.dict.2 (foldlM_preserves (P := fun acc => ∀ p ∈ acc, P p.2) hentries nofun ?_)
    exact fun acc w hw next hacc hnext => hP.mergeInto hacc (hvs w hw) hnext

lemma construct_groups (hgroups : ∀ g ∈ groups, ∀ v ∈ g, P v)
    (h : Reduce.construct groups = .ok v) : P v := by
  unfold Reduce.construct at h
  split at h
  · refine hP.construct (fun w hw => ?_) h
    obtain ⟨g, hg, hw⟩ := mem_flatten.1 hw
    exact hgroups g (mem_of_mem_tail hg) w hw
  · cases h

end Val.Closed

end Resolvent
