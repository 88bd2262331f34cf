import Resolvent.Proofs.Ty.Equality
import Resolvent.Proofs.Ty.Variables

/-!
# Places in types

Comparing two types goes from one pair of places to the next: down into the parameters of both, or
up from a self reference to the type that it points at.
-/

namespace Resolvent.Ty

open List Option

variable {t u a b : Ty} {s x y : Site} {p : Param} {ps qs : List Param} {i d : Nat}
  {path : List Nat}

/-- The place at a path, with the last step first. -/
def site? (t : Ty) : List Nat → Option Site
  | [] => some ⟨t, [], []⟩
  | i :: path => (t.site? path).bind fun s => (s.node.params[i]?).map fun p => s.child i p.2

/-! ## Going up and down -/

namespace Site

/-- The place is one of the type. -/
def In (s : Site) (t : Ty) : Prop := t.site? s.path = some s

lemma In.root (t : Ty) : (⟨t, [], []⟩ : Site).In t := rfl

lemma In.child (h : s.In t) (hp : s.node.params[i]? = some p) : (s.child i p.2).In t := by
  have hs : t.site? s.path = some s := h
  change t.site? (i :: s.path) = _
  rw [site?, hs, bind_some, hp, map_some]

lemma path_of_site? (h : t.site? path = some s) : s.path = path := by
  induction path generalizing s with
  | nil =>
    cases h
    rfl
  | cons i path ih =>
    obtain ⟨r, hr, hs⟩ := bind_eq_some_iff.1 h
    obtain ⟨p, -, rfl⟩ := map_eq_some_iff.1 hs
    exact congrArg (i :: ·) (ih hr)

lemma In.induct {motive : (s : Site) → s.In t → Prop} (root : motive ⟨t, [], []⟩ (root t))
    (child : ∀ r i p (hr : In r t) (hp : r.node.params[i]? = some p), motive r hr →
    motive (r.child i p.2) (hr.child hp)) (h : s.In t) : motive s h := by
  suffices hpath : ∀ path s (hs : In s t), s.path = path → motive s hs from hpath s.path s h rfl
  intro path
  induction path with
  | nil =>
    intro s hs hnil
    have hroot : t.site? [] = some s := hnil ▸ hs
    cases hroot
    exact root
  | cons i path ih =>
    intro s hs hcons
    have hsite : t.site? (i :: path) = some s := hcons ▸ hs
    obtain ⟨r, hr, hchild⟩ := bind_eq_some_iff.1 hsite
    obtain ⟨p, hp, rfl⟩ := map_eq_some_iff.1 hchild
    have hpath := path_of_site? hr
    have hrt : r.In t := by rw [In, hpath, hr]
    exact child r i p hrt hp (ih r hrt hpath)

lemma In.eq_of_path (hx : x.In t) (hy : y.In t) (h : x.path = y.path) : x = y := by
  rw [In, h] at hx
  exact some.inj (hx.symm.trans hy)

lemma enclosing?_child (s : Site) (i : Nat) (t : Ty) (d : Nat) :
    (s.child i t).enclosing? (d + 1) = if d = 0 then some s else s.enclosing? d := by
  cases d with
  | zero => rfl
  | succ d => rfl

lemma In.enclosing (h : s.In t) (he : s.enclosing? d = some x) :
    x.In t ∧ 0 < d ∧ d ≤ s.path.length ∧ x.path = s.path.drop d ∧ x.node.params ≠ [] := by
  induction h using induct generalizing d with
  | root => simp [enclosing?] at he
  | child r i p hr hp ih =>
    cases d with
    | zero => cases he
    | succ d =>
      rw [enclosing?_child] at he
      split at he
      · next hd =>
        cases he
        subst hd
        refine ⟨hr, by omega, by simp [Site.child], rfl, ?_⟩
        rintro hnil
        simp [hnil] at hp
      · obtain ⟨hx, hpos, hle, hdrop, hparams⟩ := ih he
        exact ⟨hx, by omega, by simpa [Site.child] using hle, by simpa [Site.child]
          using hdrop, hparams⟩

end Site

/-! ## Counting places -/

mutual

def paths : Ty → List (List Nat)
  | plain _ => [[]]
  | detailed _ _ ps _ => [] :: pathsParams 0 ps

def pathsParams : Nat → List (String × Ty) → List (List Nat)
  | _, [] => []
  | i, (_, t) :: ps => t.paths.map (· ++ [i]) ++ pathsParams (i + 1) ps

end

lemma length_pathsParams (h : ∀ p ∈ ps, p.2.paths.length = p.2.size) (i : Nat) :
    (pathsParams i ps).length = sizeParams ps := by
  induction ps generalizing i with
  | nil => rfl
  | cons p ps ih =>
    simp only [pathsParams, sizeParams, length_append, length_map, h p (by simp),
      ih fun q hq => h q (by simp [hq])]

lemma length_paths (t : Ty) : t.paths.length = t.size := by
  induction t using induct with
  | node t ih =>
    cases t with
    | plain k => rfl
    | detailed k name ps cs =>
      have hparams : (pathsParams 0 ps).length = sizeParams ps := length_pathsParams ih 0
      rw [paths, size, length_cons, hparams, Nat.add_comm]

lemma nil_mem_paths (t : Ty) : [] ∈ t.paths := by cases t <;> simp [paths]

lemma mem_pathsParams (hp : ps[i]? = some p) (hpath : path ∈ p.2.paths) (j : Nat) :
    path ++ [j + i] ∈ pathsParams j ps := by
  induction ps generalizing i j with
  | nil => cases hp
  | cons q ps ih =>
    rw [pathsParams, mem_append]
    cases i with
    | zero =>
      cases hp
      exact .inl (mem_map.2 ⟨path, hpath, rfl⟩)
    | succ i =>
      have := ih hp (j + 1)
      exact .inr (by rwa [Nat.add_right_comm] at this)

lemma map_node_site?_concat (t : Ty) (path : List Nat) (i : Nat) :
    (t.site? (path ++ [i])).map (·.node) = (t.params[i]?).bind fun p =>
    (p.2.site? path).map (·.node) := by
  induction path with
  | nil => cases h : t.params[i]? <;> simp [site?, h, Site.child]
  | cons j path ih =>
    have hstep (t : Ty) (path : List Nat) : (t.site? (j :: path)).map (·.node) =
        ((t.site? path).map (·.node)).bind fun u => (u.params[j]?).map (·.2) := by
      rw [site?]
      cases h : t.site? path with
      | none => rfl
      | some s => cases h : s.node.params[j]? <;> simp [h, Site.child]
    rw [cons_append, hstep, ih]
    cases h : t.params[i]? with
    | none => rfl
    | some p => simp only [bind_some, hstep]

lemma mem_paths (h : (t.site? path).isSome) : path ∈ t.paths := by
  induction t using induct generalizing path with
  | node t ih =>
    obtain rfl | ⟨path, i, rfl⟩ := eq_nil_or_concat path
    · exact nil_mem_paths t
    · have hnode : ((t.site? (path ++ [i])).map (·.node)).isSome := by simpa using h
      rw [map_node_site?_concat] at hnode
      obtain ⟨u, hu⟩ := isSome_iff_exists.1 hnode
      obtain ⟨p, hp, hs⟩ := bind_eq_some_iff.1 hu
      have hmem := ih p (mem_of_getElem? hp) (by simpa using isSome_iff_exists.2 ⟨u, hs⟩)
      cases t with
      | plain k => cases hp
      | detailed k name ps cs =>
        have hpath := mem_pathsParams hp hmem 0
        rw [Nat.zero_add] at hpath
        rw [concat_eq_append]
        exact mem_cons_of_mem [] hpath

lemma Site.In.mem_paths (h : s.In t) : s.path ∈ t.paths := Ty.mem_paths (isSome_iff_exists.2 ⟨s, h⟩)

/-! ## One step of comparing -/

variable {fuel : Nat} {ka kb : Kind} {seen : List (List Nat × List Nat)}

lemma equalAt_left (hx : ka.isSelf) (hy : kb.isSelf = false) :
    equalAt (fuel + 1) x ka y kb seen = match x.enclosing? ka.slot with
      | some x' => equalAt fuel x' (x'.node.kind.withOptional ka.optional) y kb seen
      | none => some false := by
  cases h : x.enclosing? ka.slot <;> simp only [equalAt, hx, hy, h]

lemma equalAt_right (hx : ka.isSelf = false) (hy : kb.isSelf) :
    equalAt (fuel + 1) x ka y kb seen = match y.enclosing? kb.slot with
      | some y' => equalAt fuel x ka y' (y'.node.kind.withOptional kb.optional) seen
      | none => some false := by
  cases h : y.enclosing? kb.slot <;> simp only [equalAt, hx, hy, h]

lemma equalParams_eq_true {same : Nat → Ty → Ty → Option Bool}
    (h : equalParams same i ps qs = some true) :
    ps.length = qs.length ∧ ∀ j p q, ps[j]? = some p → qs[j]? = some q → p.1 = q.1 ∧
    same (i + j) p.2 q.2 = some true := by
  induction ps generalizing qs i with
  | nil =>
    cases qs with
    | nil => exact ⟨rfl, nofun⟩
    | cons q qs => simp [equalParams] at h
  | cons p ps ih =>
    cases qs with
    | nil => simp [equalParams] at h
    | cons q qs =>
      rw [equalParams] at h
      split at h
      · next hname =>
        split at h
        · next hsame =>
          obtain ⟨hlen, hrest⟩ := ih h
          refine ⟨by simp [hlen], fun j p q hp hq => ?_⟩
          cases j with
          | zero =>
            cases hp
            cases hq
            exact ⟨hname, hsame⟩
          | succ j => simpa [Nat.add_right_comm, Nat.add_assoc] using hrest j p q hp hq
        · next hsame => exact absurd h hsame
      · cases h

/-- Two places that are both self references or both none are found equal if they have the same kind
and there is nothing more to them, if the pair is noted, or if they have the same data and equal
parameters. -/
lemma equalAt_true_cases (hself : ka.isSelf = kb.isSelf)
    (h : equalAt (fuel + 1) x ka y kb seen = some true) :
    ka = kb ∧ ((∃ k k', x.node = .plain k ∧ y.node = .plain k') ∨ (x.path, y.path) ∈ seen ∨
      ∃ k k' name cs ps qs, x.node = .detailed k name ps cs ∧ y.node = .detailed k' name qs cs ∧
      ps.length = qs.length ∧ ∀ i p q, ps[i]? = some p → qs[i]? = some q → p.1 = q.1 ∧
          equalAt fuel (x.child i p.2) p.2.kind (y.child i q.2) q.2.kind
          ((x.path, y.path) :: seen) = some true) := by
  rw [equalAt_of_same_isSelf hself] at h
  split at h
  · next hkind =>
    refine ⟨hkind, ?_⟩
    cases hx : x.node with
    | plain k =>
      cases hy : y.node with
      | plain k' => exact .inl ⟨k, k', rfl, rfl⟩
      | detailed k' m qs ds => simp [hx, hy] at h
    | detailed k n ps cs =>
      cases hy : y.node with
      | plain k' => simp [hx, hy] at h
      | detailed k' m qs ds =>
        simp only [hx, hy] at h
        split at h
        · next hmem => exact .inr (.inl (contains_iff_mem.1 hmem))
        · split at h
          · next hdata =>
            obtain ⟨rfl, rfl, -⟩ := hdata
            obtain ⟨hlen, hparams⟩ := equalParams_eq_true h
            simp only [Nat.zero_add] at hparams
            exact .inr (.inr ⟨k, k', n, cs, ps, qs, rfl, rfl, hlen, hparams⟩)
          · cases h
  · cases h

/-! ## Which one comes first -/

lemma equalParams_swap {same same' : Nat → Ty → Ty → Option Bool}
    (h : ∀ i t u, same i t u = same' i u t) (i : Nat) :
    equalParams same i ps qs = equalParams same' i qs ps := by
  induction ps generalizing qs i with
  | nil => cases qs <;> rfl
  | cons p ps ih =>
    cases qs with
    | nil => rfl
    | cons q qs =>
      obtain ⟨n, t⟩ := p
      obtain ⟨m, u⟩ := q
      rw [equalParams, equalParams, h]
      by_cases hname : n = m
      · subst hname
        rw [if_pos rfl, if_pos rfl, ih]
      · rw [if_neg hname, if_neg fun h => hname h.symm]

lemma contains_map_swap (path path' : List Nat) :
    (seen.map Prod.swap).contains (path', path) = seen.contains (path, path') := by
  rw [Bool.eq_iff_iff, contains_iff_mem, contains_iff_mem]
  exact mem_map_of_injective Prod.swap_injective (a := (path, path'))

lemma equalAt_swap (fuel : Nat) (x : Site) (ka : Kind) (y : Site) (kb : Kind)
    (seen : List (List Nat × List Nat)) :
    equalAt fuel x ka y kb seen = equalAt fuel y kb x ka (seen.map Prod.swap) := by
  induction fuel generalizing x ka y kb seen with
  | zero => rfl
  | succ fuel ih =>
    by_cases hself : ka.isSelf = kb.isSelf
    · rw [equalAt_of_same_isSelf hself, equalAt_of_same_isSelf hself.symm]
      by_cases hkind : ka = kb
      · rw [if_pos hkind, if_pos hkind.symm]
        cases x.node with
        | plain k => cases y.node <;> rfl
        | detailed k n ps cs =>
          cases y.node with
          | plain k' => rfl
          | detailed k' m qs ds =>
            have hdata : (n = m ∧ cs = ds ∧ ps.length = qs.length) ↔
              (m = n ∧ ds = cs ∧ qs.length = ps.length) := by
              rw [eq_comm, eq_comm (a := cs), eq_comm (a := ps.length)]
            simp only [contains_map_swap, hdata]
            congr 2
            exact equalParams_swap (fun i t u => ih ..) 0
      · rw [if_neg hkind, if_neg fun h => hkind h.symm]
    · cases hx : ka.isSelf with
      | false =>
        have hy : kb.isSelf := by simpa [hx] using hself
        rw [equalAt_right hx hy, equalAt_left hy hx]
        cases y.enclosing? kb.slot with
        | none => rfl
        | some y' => exact ih ..
      | true =>
        have hy : kb.isSelf = false := by simpa [hx] using hself
        rw [equalAt_left hx hy, equalAt_right hy hx]
        cases x.enclosing? ka.slot with
        | none => rfl
        | some x' => exact ih ..

lemma equal_comm (a b : Ty) : equal a b = equal b a := by
  have hbudget : equalBudget a b = equalBudget b a := by
    rw [equalBudget, equalBudget, Nat.mul_comm a.size, Nat.add_comm a.size]
  rw [equal, equal?, hbudget, equalAt_swap]
  rfl

end Resolvent.Ty
