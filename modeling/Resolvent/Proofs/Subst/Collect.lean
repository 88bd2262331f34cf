import Resolvent.Proofs.Subst.Alternatives

/-!
# Variables that collect types

A variable that is unified with one type after the other is bound to an alternative of what they
came to.
-/

namespace Resolvent

open List Option
open Shape (typed merge)

/-! ## Alternatives that grow -/

namespace Ty

variable {t : Ty} {ts : List Ty} {l : List (Bool × Shape)} {x y : Bool × Shape}

@[simp] lemma candidates_typed (x : Bool × Shape) : (typed x).candidates = [typed x] := by
  simp [candidates]

lemma flatMap_candidates_typed (l : List (Bool × Shape)) :
    (l.map typed).flatMap candidates = l.map typed :=
  flatMap_candidates (List.forall_mem_map.2 fun x _ => Shape.isAlt_typed x)

lemma flat_typed (l : List (Bool × Shape)) :
    (∀ t, t ∈ flat (l.map typed) ↔ t ∈ l.map typed) ∧ (flat (l.map typed)).Nodup := by
  have hself : ∀ t ∈ (l.map typed).flatMap candidates, t.selfFree := by
    rw [flatMap_candidates_typed, List.forall_mem_map]
    exact fun x _ => (Shape.ground_typed x).selfFree
  have hspec := flat_spec hself
  rwa [flatMap_candidates_typed] at hspec

lemma ground_flat (l : List (Bool × Shape)) : ∀ t ∈ flat (l.map typed), t.Ground := by
  intro t ht
  obtain ⟨x, _, rfl⟩ := List.mem_map.1 (((flat_typed l).1 t).1 ht)
  exact Shape.ground_typed x

lemma ground_alt (l : List (Bool × Shape)) : (alt (l.map typed)).Ground := by
  have hflat := ground_flat l
  rw [alt_eq]
  split
  · next t hsingle => exact hflat t (by simp [hsingle])
  · exact .alternative false hflat

lemma candidates_alt_typed (l : List (Bool × Shape)) :
    (alt (l.map typed)).candidates = flat (l.map typed) := by
  refine candidates_alt ?_
  rw [flatMap_candidates_typed, List.forall_mem_map]
  exact fun x _ => Shape.isAlt_typed x

lemma members_var (i : Nat) (cs : List Ty) : (var i cs).members = cs := by
  rw [members, isVar_var]
  cases cs <;> simp [var, params]

lemma alt_alt (l : List (Bool × Shape)) (y : Bool × Shape) :
    alt [alt (l.map typed), typed y] = alt ((l ++ [y]).map typed) := by
  rw [map_append]
  exact alt_singleton_append (candidates_alt_typed l)

lemma alt_append_of_mem (h : y ∈ l) : alt ((l ++ [y]).map typed) = alt (l.map typed) := by
  have hmem : typed y ∈ flat (l.map typed) := ((flat_typed l).1 _).2 (List.mem_map_of_mem h)
  refine alt_congr ?_
  rw [map_append, flat_append]
  exact foldl_addCandidate_of_subset (by simpa using hmem)

lemma alt_typed (x : Bool × Shape) : alt ([x].map typed) = typed x := by
  rw [alt_eq, flat, flatMap_candidates_typed]
  rfl

lemma mem_iff_of_alt_eq (h : alt (l.map typed) = typed y) : x ∈ l ↔ x = y := by
  have hflat : flat (l.map typed) = [typed y] := by rw [← candidates_alt_typed, h, candidates_typed]
  rw [← List.mem_map_of_injective Shape.typed_injective, ← (flat_typed l).1, hflat, mem_singleton,
    Shape.typed_injective.eq_iff]

end Ty

namespace Subst

open Solve Ty

variable {s s' : Subst} {a b v : Ty} {l m ys : List (Bool × Shape)} {x y z : Bool × Shape} {i : Nat}
  {cs : List Ty}

/-! ## Choosing -/

lemma Sound.exec_choose_apply (h : s.Sound) (t : Ty) :
    (choose t).exec s = (choose (s.apply t)).exec s := by
  rw [h.exec_choose, h.exec_choose, chooseWith, chooseWith, exec_get_bind, exec_get_bind,
    h.apply_apply]

lemma Sound.get?_succ_size (h : s.Sound) : s.get? (s.size + 1) = none := by
  by_contra hbound
  have := (h.numbered _ (ne_none_iff_isSome.1 hbound)).2
  omega

lemma chosen_eq_of_isLUB (optional : Bool) (hl : l ≠ []) (h : IsLUB {y | y ∈ l} x)
    (hopt : optional → x.1) : chosen optional l = typed x := by
  cases l with
  | nil => exact absurd rfl hl
  | cons y l =>
    have hflag : (x.1 || optional) = x.1 := by grind
    rw [chosen, Shape.mergeAll_eq_of_isLUB h, map_some, orAny, typed_optIf, hflag]

lemma Sound.exec_choose_typed (h : s.Sound) (hl : l ≠ [])
    (hdepth : ∀ y ∈ l, y.2.depth ≤ Kind.maxDepth)
    (hx : IsLUB {y | y ∈ l} x) : (choose (.alt (l.map typed))).exec s = (.ok (typed x), s) := by
  obtain ⟨f, hf⟩ := Shape.typed_injective.hasLeftInverse
  have hmem (t : Ty) : t ∈ flat (l.map typed) ↔ ∃ y ∈ l, typed y = t := by
    rw [(flat_typed l).1, List.mem_map]
  have hchoose : ∀ t ∈ flat (l.map typed), (f t).2.depth ≤ Kind.maxDepth ∧
    (choose t).exec s = (.ok (typed (f t)), s) := by
    intro t ht
    obtain ⟨y, hy, rfl⟩ := (hmem t).1 ht
    rw [hf y]
    exact ⟨hdepth y hy, h.exec_choose_ty y.2 y.1⟩
  have hshapes (y : Bool × Shape) : y ∈ (flat (l.map typed)).map f ↔ y ∈ l := by
    rw [List.mem_map]
    constructor
    · rintro ⟨t, ht, rfl⟩
      obtain ⟨y, hy, rfl⟩ := (hmem t).1 ht
      rwa [hf y]
    · exact fun hy => ⟨typed y, (hmem _).2 ⟨y, hy, rfl⟩, hf y⟩
  have hlub : IsLUB {y | y ∈ (flat (l.map typed)).map f} x := by simpa only [hshapes] using hx
  have hne : (flat (l.map typed)).map f ≠ [] := by
    obtain ⟨y, hy⟩ := exists_mem_of_ne_nil l hl
    exact ne_nil_of_mem ((hshapes y).2 hy)
  rw [h.exec_choose_alt (ground_flat l) hchoose]
  congr 2
  unfold resolved
  split
  · next t hsingle =>
    rw [hsingle] at hlub hne
    have hchosen := chosen_eq_of_isLUB false hne hlub nofun
    simpa [chosen, Shape.mergeAll, orAny, optIf] using hchosen
  · refine chosen_eq_of_isLUB _ hne hlub fun hany => ?_
    obtain ⟨t, ht, hflag⟩ := List.any_eq_true.1 hany
    obtain ⟨y, hy, rfl⟩ := (hmem t).1 ht
    exact (hx.1 hy).1 (by simpa [typed] using hflag)

/-! ## Binding anew -/

structure Rebinds (s : Subst) (i : Nat) (t : Ty) (s' : Subst) : Prop where
  sound : s'.Sound
  size_le : s.size ≤ s'.size
  get?_self : s'.get? i = some t
  get?_of_ne : ∀ j, j ≠ i → s'.get? j = s.get? j

lemma Sound.rebinds_assign (h : s.Sound) (hi : 0 < i) {t : Ty} (ht : t.Ground) :
    s.Rebinds i t (s.assign i t) where
  sound := h.assign hi (h.occurs_ground ht i)
  size_le := by simp
  get?_self := get?_assign_self s i t
  get?_of_ne _ hj := get?_assign_of_ne t hj

lemma Sound.exec_bind_ground (h : s.Sound) (hv : v.varId? = some i) (hi : 0 < i) {t : Ty}
    (ht : t.Ground) : (bind v t).exec s = (.ok (), s.assign i t) := by
  obtain ⟨i, rfl⟩ : ∃ j, i = j + 1 := ⟨i - 1, by omega⟩
  simp [exec_bindTo, hv, h.occurs_ground ht]

lemma Sound.exec_remember (h : s.Sound) (hv : v.varId? = some i) (hi : 0 < i)
    (l : List (Bool × Shape)) (z : Bool × Shape) :
    ∃ s', (remember v (alt (l.map typed)) (typed z)).exec s = (.ok (), s') ∧
      (alt (l.map typed) = typed z ∧ s' = s ∨ s.Rebinds i (alt ((l ++ [z]).map typed)) s') := by
  unfold remember
  cases hequal : equal (alt (l.map typed)) (typed z) with
  | true => exact ⟨s, rfl, .inl ⟨((ground_alt l).equal_iff (Shape.ground_typed z)).1 hequal, rfl⟩⟩
  | false =>
    rw [alt_alt, if_neg (by simp), h.exec_bind_ground hv hi (ground_alt _)]
    exact ⟨_, rfl, .inr (h.rebinds_assign hi (ground_alt _))⟩

/-! ## Unifying what variables have collected -/

/-- An argument of a search that stands for the alternative of some types: it is that, or a variable
that leads to it. -/
structure Holds (s : Subst) (t : Ty) (l : List (Bool × Shape)) : Prop where
  apply_eq : s.apply t = alt (l.map typed)
  bound : ∀ i, t.varId? = some i → ∃ u, s.get? i = some u ∧ s.apply u = alt (l.map typed)
  depth : ∀ y ∈ l, y.2.depth ≤ Kind.maxDepth

lemma Sound.holds_typed (h : s.Sound) (hx : x.2.depth ≤ Kind.maxDepth) : s.Holds (typed x) [x] where
  apply_eq := by rw [h.apply_ground (Shape.ground_typed x), alt_typed]
  bound i hi := by simp [varId?] at hi
  depth := by simpa using hx

lemma Sound.holds_var (h : s.Sound) {u : Ty} (cs : List Ty) (hb : s.get? i = some u)
    (hu : s.apply u = alt (l.map typed))
    (hdepth : ∀ y ∈ l, y.2.depth ≤ Kind.maxDepth) : s.Holds (.var i cs) l where
  apply_eq := by rw [h.apply_var_bound hb, hu]
  bound j hj := by
    obtain rfl : i = j := by simpa using hj
    exact ⟨u, hb, hu⟩
  depth := hdepth

def Noted (s : Subst) (a : Ty) (l : List (Bool × Shape)) (z : Bool × Shape) (s' : Subst) : Prop :=
  match a.varId? with
  | some i => alt (l.map typed) = typed z ∧ s' = s ∨ s.Rebinds i (alt ((l ++ [z]).map typed)) s'
  | none => s' = s

lemma Noted.sound (hn : s.Noted a l z s') (h : s.Sound) : s'.Sound := by
  unfold Noted at hn
  split at hn
  · rcases hn with ⟨_, rfl⟩ | hn
    · exact h
    · exact hn.sound
  · exact hn ▸ h

lemma Noted.get?_of_ne (hn : s.Noted a l z s') (hi : a.varId? ≠ some i) : s'.get? i = s.get? i := by
  unfold Noted at hn
  split at hn
  · next j hj =>
    rcases hn with ⟨_, rfl⟩ | hn
    · rfl
    · exact hn.get?_of_ne i fun hij => hi (hij ▸ hj)
  · rw [hn]

lemma Sound.exec_note {s₁ : Subst} (h : s₁.Sound) (ha : s.Holds a l)
    (hsame : ∀ i, a.varId? = some i → s₁.get? i = s.get? i)
    (z : Bool × Shape) (k : Solve Ty) : ∃ s₂, s₁.Noted a l z s₂ ∧
      (if s.isBound a then remember a (alt (l.map typed)) (typed z) >>= fun _ => k else k).exec s₁ =
      k.exec s₂ := by
  unfold Noted isBound
  cases hid : a.varId? with
  | none => exact ⟨s₁, rfl, rfl⟩
  | some i =>
    obtain ⟨u, hu, -⟩ := ha.bound i hid
    have hi : 0 < i := (h.numbered i (by simp [hsame i hid, hu])).1
    obtain ⟨s₂, hexec, hnoted⟩ := h.exec_remember hid hi l z
    refine ⟨s₂, hnoted, ?_⟩
    simp only [hu, isSome_some, ↓reduceIte]
    rw [exec_bind, hexec]

lemma Sound.exec_unify_holds (h : s.Sound) (ha : s.Holds a l) (hb : s.Holds b m)
    (hx : IsGreatest {y | y ∈ l} x)
    (hy : IsGreatest {z | z ∈ m} y) (hne : alt (l.map typed) ≠ alt (m.map typed)) :
    match merge x y with
    | none => ∃ e, (unify a b).exec s = (.error e, s)
    | some z => ∃ s₁ s₂, (unify a b).exec s = (.ok (typed z), s₂) ∧ s.Noted a l z s₁ ∧
        s₁.Noted b m z s₂ := by
  have hequal : equal (alt (l.map typed)) (alt (m.map typed)) = false := by
    rw [Bool.eq_false_iff, Ne, (ground_alt l).equal_iff (ground_alt m)]
    exact hne
  have hchoose {l : List (Bool × Shape)} {x : Bool × Shape} (hx : IsGreatest {y | y ∈ l} x)
      (hdepth : ∀ y ∈ l, y.2.depth ≤ Kind.maxDepth) : (choose (alt (l.map typed))).exec s =
      (.ok (typed x), s) :=
    h.exec_choose_typed (ne_nil_of_mem hx.1) hdepth hx.isLUB
  have hgives := h.gives_unifyPlain (ha.depth x hx.1) (hb.depth y hy.1)
  rw [h.exec_unify, unifyWith, exec_get_bind]
  simp only [ha.apply_eq, hb.apply_eq, hequal, (ground_alt _).isVar_eq,
    Bool.false_eq_true, ↓reduceIte]
  rw [exec_bind, hchoose hx ha.depth]
  dsimp only
  rw [exec_bind, hchoose hy hb.depth]
  dsimp only
  rw [exec_bind]
  cases hmerge : merge x y with
  | none =>
    rw [hmerge] at hgives
    obtain ⟨t, u, he⟩ := hgives
    rw [he]
    exact ⟨_, rfl⟩
  | some z =>
    rw [hmerge] at hgives
    rw [show (unifyPlain unify choose (typed x) (typed y)).exec s = (.ok (typed z), s) from hgives]
    -- The two arguments are different variables, if they are variables at all.
    have hids (i : Nat) (hi : b.varId? = some i) : a.varId? ≠ some i := by
      intro hia
      obtain ⟨u, hu, happly⟩ := ha.bound i hia
      obtain ⟨w, hw, happly'⟩ := hb.bound i hi
      obtain rfl : u = w := some_injective _ (hu.symm.trans hw)
      exact hne (happly.symm.trans happly')
    obtain ⟨s₁, hs₁, hexec⟩ := h.exec_note ha (fun _ _ => rfl) z (do
      if s.isBound b then remember b (alt (m.map typed)) (typed z)
      return typed z)
    obtain ⟨s₂, hs₂, hexec'⟩ :=
      (hs₁.sound h).exec_note hb (fun i hi => hs₁.get?_of_ne (hids i hi)) z (pure (typed z))
    exact ⟨s₁, s₂, hexec.trans hexec', hs₁, hs₂⟩

lemma Sound.exec_bindVar (h : s.Sound) (hi : 0 < i) (hb : s.Holds b m)
    (hy : IsGreatest {z | z ∈ m} y) (cs : List Ty) :
    (bindVar choose (.var i cs) (alt (m.map typed))).exec s =
      if cs = [] ∨ cs.any fun c => (fit (typed y) c).isCompatible then
        (.ok (alt (m.map typed)), s.assign i (alt (m.map typed)))
      else (.error (.constraint (.var i cs) (alt (m.map typed))), s) := by
  have hid : (alt (m.map typed)).varId? = none := by simp [varId?, (ground_alt m).isVar_eq]
  have hbind : (do bind (.var i cs) (alt (m.map typed)); return alt (m.map typed) :
    Solve Ty).exec s = (.ok (alt (m.map typed)), s.assign i (alt (m.map typed))) := by
    rw [exec_bind, h.exec_bind_ground (by simp) hi (ground_alt m)]
    rfl
  unfold bindVar
  simp only [hid, members_var]
  cases cs with
  | nil => exact hbind
  | cons c cs =>
    simp only [isEmpty_cons, ↓reduceIte, reduceCtorEq, false_or]
    rw [exec_bind, h.exec_choose_typed (ne_nil_of_mem hy.1) hb.depth hy.isLUB]
    dsimp only
    split
    · exact hbind
    · rfl

lemma Sound.exec_unify_var (h : s.Sound) (ha : s.apply a = .var i cs) (hb : s.Holds b m) :
    (unify a b).exec s = (bindVar choose (.var i cs) (alt (m.map typed))).exec s ∧
    (unify b a).exec s = (bindVar choose (.var i cs) (alt (m.map typed))).exec s := by
  have hself : (alt (m.map typed)).kind.isSelf = false := by
    cases ground_alt m
    assumption
  have hkind : (var i cs).kind ≠ (alt (m.map typed)).kind := by
    intro hkind
    have hvar := isVar_var i cs
    rw [hkind, (ground_alt m).isVar_eq] at hvar
    cases hvar
  have hequal : equal (.var i cs) (alt (m.map typed)) = false := equal_eq_false hself hkind
  have hequal' : equal (alt (m.map typed)) (.var i cs) = false :=
    equal_eq_false (by rw [kind_var]; rfl) hkind.symm
  rw [h.exec_unify, h.exec_unify, unifyWith, unifyWith, exec_get_bind, exec_get_bind]
  simp only [ha, hb.apply_eq, hequal, hequal', isVar_var, (ground_alt m).isVar_eq,
    Bool.false_eq_true, ↓reduceIte, and_self]

/-! ## Collecting -/

lemma isGreatest_append (hx : IsGreatest {y | y ∈ l} x) (hle : x ≤ z) :
    IsGreatest {w | w ∈ l ++ [z]} z := by
  refine ⟨by simp, fun w hw => ?_⟩
  rcases mem_append.1 hw with hw | hw
  · exact (hx.2 hw).trans hle
  · rw [mem_singleton.1 hw]

lemma isLUB_append (hx : IsLUB {y | y ∈ l} x) (hmerge : merge x y = some z) :
    IsLUB {w | w ∈ l ++ [y]} z := by
  constructor
  · intro w hw
    rcases mem_append.1 hw with hw | hw
    · exact (hx.1 hw).trans (Shape.left_le_merge hmerge)
    · rw [mem_singleton.1 hw]
      exact Shape.right_le_merge hmerge
  · intro u hu
    have hxu : x ≤ u := hx.2 fun w hw => hu (mem_append_left _ hw)
    exact (Shape.merge_le_iff hmerge u).2 ⟨hxu, hu (by simp)⟩

lemma depth_append (hl : ∀ y ∈ l, y.2.depth ≤ Kind.maxDepth) (hz : z.2.depth ≤ Kind.maxDepth) :
    ∀ y ∈ l ++ [z], y.2.depth ≤ Kind.maxDepth := by
  intro w hw
  rcases mem_append.1 hw with hw | hw
  · exact hl w hw
  · rwa [mem_singleton.1 hw]

/-- A variable is bound to an alternative in which one type is above all others. -/
structure Collected (s : Subst) (i : Nat) (x : Bool × Shape) (l : List (Bool × Shape)) : Prop where
  get?_eq : s.get? i = some (alt (l.map typed))
  depth : ∀ y ∈ l, y.2.depth ≤ Kind.maxDepth
  greatest : IsGreatest {y | y ∈ l} x

lemma Collected.holds (hc : s.Collected i x l) (h : s.Sound) (cs : List Ty) :
    s.Holds (.var i cs) l :=
  h.holds_var cs hc.get?_eq (h.apply_ground (ground_alt l)) hc.depth

/-- A bound variable collects one more type, unless there is no common type. A type below what it
has collected changes nothing. -/
lemma Sound.collects (h : s.Sound) (hc : s.Collected i x l) (cs : List Ty)
    (hy : y.2.depth ≤ Kind.maxDepth) : match merge x y with
    | none => ∃ e, (unify (.var i cs) (typed y)).exec s = (.error e, s)
    | some z => ∃ s' l', (unify (.var i cs) (typed y)).exec s = (.ok (typed z), s') ∧ s'.Sound ∧
        s'.Collected i z l' ∧ (y ≤ x → ∀ j, s'.get? j = s.get? j) := by
  have hv := hc.holds h cs
  by_cases hsame : alt (l.map typed) = typed y
  · obtain rfl : x = y := (mem_iff_of_alt_eq hsame).1 hc.greatest.1
    have happly : s.apply (typed x) = typed x := h.apply_ground (Shape.ground_typed x)
    rw [Shape.merge_self]
    refine ⟨s, l, ?_, h, hc, fun _ _ => rfl⟩
    rw [h.exec_unify, unifyWith, exec_get_bind]
    simp only [hv.apply_eq, hsame, happly, equal_self]
    rfl
  · have hgreatest : IsGreatest {w | w ∈ [y]} y := by simp
    have hexec := h.exec_unify_holds hv (h.holds_typed hy) hc.greatest hgreatest
      (by rwa [alt_typed])
    cases hmerge : merge x y with
    | none => rwa [hmerge] at hexec
    | some z =>
      rw [hmerge] at hexec
      obtain ⟨s', s₂, he, hs₁, hs₂⟩ := hexec
      have hid : (typed y).varId? = none := by simp [varId?]
      obtain rfl : s₂ = s' := by simpa [Noted, hid] using hs₂
      rw [Noted, varId?_var] at hs₁
      rcases hs₁ with ⟨honly, rfl⟩ | hs'
      · obtain rfl : x = z := (mem_iff_of_alt_eq honly).1 hc.greatest.1
        exact ⟨s₂, l, he, h, hc, fun _ _ => rfl⟩
      · have hdepth := depth_append hc.depth
          (Shape.depth_merge hmerge (hc.depth x hc.greatest.1) hy)
        have hgreatest := isGreatest_append hc.greatest (Shape.left_le_merge hmerge)
        refine ⟨s₂, _, he, hs'.sound, ⟨hs'.get?_self, hdepth, hgreatest⟩, fun hle j => ?_⟩
        by_cases hj : j = i
        · obtain rfl : x = z := some_injective _ ((Shape.merge_of_le hle).symm.trans hmerge)
          rw [hj, hs'.get?_self, alt_append_of_mem hc.greatest.1, hc.get?_eq]
        · exact hs'.get?_of_ne j hj

/-- Unifies a type with several ones, one after the other. -/
def unifyEach (v : Ty) : List Ty → Solve Unit
  | [] => pure ()
  | t :: ts => do
    let _ ← unify v t
    unifyEach v ts

lemma Sound.collects_each (h : s.Sound) (hc : s.Collected i x l)
    (hm : IsLUB {y | y ∈ m} x) (hys : ∀ y ∈ ys, y.2.depth ≤ Kind.maxDepth)
    (hrun : (unifyEach (.var i cs) (ys.map typed)).exec s = (.ok (), s')) :
    ∃ z l', s'.Sound ∧ s'.Collected i z l' ∧ IsLUB {y | y ∈ m ++ ys} z := by
  induction ys generalizing s l m x with
  | nil =>
    cases hrun
    exact ⟨x, l, h, hc, by simpa using hm⟩
  | cons y ys ih =>
    have hstep := h.collects hc cs (hys y (by simp))
    rw [map_cons, unifyEach, exec_bind] at hrun
    cases hmerge : merge x y with
    | none =>
      rw [hmerge] at hstep
      obtain ⟨e, he⟩ := hstep
      rw [he] at hrun
      cases hrun
    | some w =>
      rw [hmerge] at hstep
      obtain ⟨s₁, l₁, he, h₁, hc₁, -⟩ := hstep
      rw [he] at hrun
      obtain ⟨z, l', hs', hc', hlub⟩ :=
        ih h₁ hc₁ (isLUB_append hm hmerge) (fun w hw => hys w (by simp [hw])) hrun
      exact ⟨z, l', hs', hc', by simpa using hlub⟩

lemma Sound.collects_of_unbound (h : s.Sound) (hi : 0 < i) (hnone : s.get? i = none)
    (hne : ys ≠ []) (hys : ∀ y ∈ ys, y.2.depth ≤ Kind.maxDepth)
    (hrun : (unifyEach (.var i []) (ys.map typed)).exec s = (.ok (), s')) :
    ∃ z l, s'.Sound ∧ s'.Collected i z l ∧ IsLUB {y | y ∈ ys} z := by
  cases ys with
  | nil => exact absurd rfl hne
  | cons y ys =>
    have hy := hys y (by simp)
    have hgreatest : IsGreatest {w | w ∈ [y]} y := by simp
    have hholds := h.holds_typed hy
    rw [map_cons, unifyEach, exec_bind, (h.exec_unify_var (h.apply_var_unbound hnone) hholds).1,
      h.exec_bindVar hi hholds hgreatest] at hrun
    have hs₁ : s.Rebinds i (alt ([y].map typed)) _ := h.rebinds_assign hi (ground_alt [y])
    have hc : Collected _ i y [y] := ⟨hs₁.get?_self, by simpa using hy, hgreatest⟩
    exact hs₁.sound.collects_each hc hgreatest.isLUB (fun w hw => hys w (by simp [hw])) hrun

/-- A fresh variable collects the join of all types that it is unified with. Whatever the operations
before were, after it has been unified with types without objects, specs, variables, references and
alternatives, choosing gives what is chosen for the alternative of all of them in the empty
substitution; and to unify it with one of them again gives that type, too, and leaves all bindings
as they are. -/
theorem unify_collects (ops : List Op) {ts : List Ty} (hne : ts ≠ [])
    (hts : ∀ t ∈ ts, t.Simple false Kind.maxDepth)
    (hrun : (unifyEach ((after ops).fresh []).1 ts).exec ((after ops).fresh []).2 = (.ok (), s')) :
    ∃ u, (choose ((after ops).fresh []).1).exec s' = (.ok u, s') ∧ (choose (.alt ts)).exec {} =
    (.ok u, {}) ∧ ∀ t ∈ ts, ∃ s'', (unify ((after ops).fresh []).1 t).exec s' = (.ok u, s'') ∧
      ∀ j, s''.get? j = s'.get? j := by
  obtain ⟨ys, rfl, hys⟩ := Shape.exists_typed hts
  have h : (after ops).Sound := sound_after ops
  have hfresh : ((after ops).fresh []).2.Sound := h.grow (n := (after ops).size + 1) (by omega)
  obtain ⟨z, l, hs', hc, hlub⟩ :=
    hfresh.collects_of_unbound (Nat.succ_pos _) (h.get?_succ_size) (by simpa using hne) hys hrun
  have hvar : ((after ops).fresh []).1 = .var ((after ops).size + 1) [] := rfl
  rw [hvar]
  refine ⟨typed z, ?_, Sound.empty.exec_choose_typed (by simpa using hne) hys hlub, ?_⟩
  · rw [hs'.exec_choose_apply, (hc.holds hs' []).apply_eq]
    exact hs'.exec_choose_typed (List.ne_nil_of_mem hc.greatest.1) hc.depth hc.greatest.isLUB
  · rw [List.forall_mem_map]
    intro y hy
    have hle : y ≤ z := hlub.1 hy
    have hstep := hs'.collects hc [] (hys y hy)
    rw [Shape.merge_of_le hle] at hstep
    obtain ⟨s'', -, he, -, -, hget⟩ := hstep
    exact ⟨s'', he, hget hle⟩

def textBound : List Op := [.newVar [], .unify (.var 1 []) .str]

def sequences : List Ty :=
  [typed (false, .cont .list false (.basic .int none)), typed (false, .bare .idxr),
  typed (true, .cont .idxr true (.basic .real none))]

theorem unify_collects_sequences : (∀ t ∈ sequences, t.Simple false Kind.maxDepth) ∧
    ∃ s', (unifyEach ((after textBound).fresh []).1 sequences).exec ((after textBound).fresh []).2 =
    (.ok (), s') ∧ ∃ u, (choose ((after textBound).fresh []).1).exec s' = (.ok u, s') ∧
      (choose (.alt sequences)).exec {} = (.ok u, {}) ∧
        ∀ t ∈ sequences, ∃ s'', (unify ((after textBound).fresh []).1 t).exec s' = (.ok u, s'') ∧
          ∀ j, s''.get? j = s'.get? j := by
  have hsimple : ∀ t ∈ sequences, t.Simple false Kind.maxDepth := by
    simp only [sequences, List.mem_cons, List.not_mem_nil, or_false, forall_eq_or_imp, forall_eq]
    exact ⟨Shape.simple_ty (by decide) _, Shape.simple_ty (by decide) _,
      Shape.simple_ty (by decide) _⟩
  have hrun : ((unifyEach ((after textBound).fresh []).1 sequences).exec
    ((after textBound).fresh []).2).1.toOption = some () := by
    decide
  have hok := eq_ok_of_toOption hrun
  exact ⟨hsimple, _, hok, unify_collects textBound (by simp [sequences]) hsimple hok⟩

end Subst

end Resolvent
