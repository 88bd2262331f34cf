import Resolvent.Proofs.Ty.Concrete
import Resolvent.Proofs.Ty.Meetings

/-!
# Unrolling types

A self reference stands for the type that it points at, so a type stands for a tree without self
references, which may be infinite.
-/

namespace Resolvent

open List Option

lemma Kind.withOptional_eq {j k : Kind} (h : j = k.withOptional j.optional) (o : Bool) :
    j.withOptional o = k.withOptional o := by
  rw [h]
  rfl

namespace Ty

variable {a b c t u : Ty} {s x y z : Site} {p q : Param} {ps qs : List Param} {i j d n m fuel : Nat}
  {k ka kb : Kind} {o : Bool} {seen : List (List Nat × List Nat)}

namespace Site

/-- What a kind read at a place stands for: the type that a self reference points at, optional if
the reference is. -/
def settle (s : Site) (k : Kind) : Site × Kind :=
  if k.isSelf then
    match s.enclosing? k.slot with
    | some u => (u, u.node.kind.withOptional k.optional)
    | none => (s, k) else (s, k)

/-- The tree that a place stands for, cut at a depth. -/
def unroll : (depth : Nat) → (s : Site) → (k : Kind) → Ty
  | 0, _, _ => .void
  | depth + 1, s, k =>
    match (s.settle k).1.node with
    | .plain _ => .plain (s.settle k).2
    | .detailed _ name ps cs =>
      .detailed (s.settle k).2 name (ps.mapIdx fun i p =>
      (p.1, unroll depth ((s.settle k).1.child i p.2) p.2.kind)) cs

lemma unroll_of_not_self (hk : k.isSelf = false) : s.unroll (n + 1) k = match s.node with
      | .plain _ => .plain k
      | .detailed _ name ps cs =>
        .detailed k name (ps.mapIdx fun i p => (p.1, (s.child i p.2).unroll n p.2.kind)) cs := by
  have hsettle : s.settle k = (s, k) := by simp [settle, hk]
  rw [unroll, hsettle]

lemma unroll_of_self (hk : k.isSelf) (hz : s.enclosing? k.slot = some z)
    (hself : z.node.kind.isSelf = false) (n : Nat) :
    s.unroll n k = z.unroll n (z.node.kind.withOptional k.optional) := by
  have hsettle : s.settle k = (z, z.node.kind.withOptional k.optional) := by simp [settle, hk, hz]
  cases n with
  | zero => rfl
  | succ n =>
    rw [unroll, hsettle, unroll_of_not_self (k := z.node.kind.withOptional k.optional) hself]

lemma kind_unroll (hk : k.isSelf = false) : (s.unroll (n + 1) k).kind = k := by
  rw [unroll_of_not_self hk]
  cases s.node <;> rfl

lemma setKind_unroll {l : Kind} (hk : k.isSelf = false) (hl : l.isSelf = false) :
    (s.unroll (n + 1) k).setKind l = s.unroll (n + 1) l := by
  rw [unroll_of_not_self hk, unroll_of_not_self hl]
  cases s.node <;> rfl

lemma unroll_withOptional (hx : ka.isSelf = false) (hy : kb.isSelf = false)
    (h : x.unroll n ka = y.unroll n kb) (o : Bool) :
    x.unroll n (ka.withOptional o) = y.unroll n (kb.withOptional o) := by
  cases n with
  | zero => rfl
  | succ n =>
    have hkind : ka = kb := by simpa only [kind_unroll hx, kind_unroll hy] using congrArg kind h
    rw [← setKind_unroll (l := ka.withOptional o) hx hx,
      ← setKind_unroll (l := kb.withOptional o) hy hy, h, hkind]

/-- No self reference at or below the place points more than `j` levels above it. -/
def Inward (t : Ty) (s : Site) (j : Nat) : Prop :=
  ∀ z : Site, z.In t → s.path <:+ z.path → z.node.kind.isSelf →
    z.node.kind.slot + s.path.length ≤ z.path.length + j

lemma Inward.child (h : s.Inward t j) (i : Nat) (u : Ty) : (s.child i u).Inward t (j + 1) := by
  intro z hz hsuffix hself
  have hle := h z hz ((suffix_cons i s.path).trans hsuffix) hself
  simp only [Site.child, length_cons]
  omega

end Site

/-! ## Self references -/

/-- Self references point at an enclosing type. -/
def Enclosed (t : Ty) : Prop :=
  ∀ s, Site.In s t → s.node.kind.isSelf → (s.enclosing? s.node.kind.slot).isSome

/-- No self reference leaves a type that another one points at. -/
def Sealed (t : Ty) : Prop :=
  ∀ s, Site.In s t → s.node.kind.isSelf → ∀ z ∈ s.enclosing? s.node.kind.slot, z.Inward t 0

structure Scoped (t : Ty) : Prop where
  leaf : ∀ s, Site.In s t → s.node.kind.isSelf → s.node.isDetailed = false
  enclosed : t.Enclosed

lemma Scoped.points (h : t.Scoped) (hs : s.In t) (hself : s.node.kind.isSelf) :
    ∃ z, s.enclosing? s.node.kind.slot = some z :=
  isSome_iff_exists.1 (h.enclosed s hs hself)

lemma Scoped.enclosing_not_self (h : t.Scoped) (hs : s.In t) (hz : s.enclosing? d = some z) :
    z.node.kind.isSelf = false := by
  obtain ⟨hzt, -, -, -, hparams⟩ := hs.enclosing hz
  rw [Bool.eq_false_iff]
  intro hself
  have hleaf := h.leaf z hzt hself
  cases hnode : z.node with
  | plain k => simp [hnode, params] at hparams
  | detailed k n ps cs => simp [hnode, isDetailed] at hleaf

lemma Scoped.inward_root (h : t.Scoped) : Site.Inward t ⟨t, [], []⟩ 0 := by
  intro z hz _ hself
  obtain ⟨w, hw⟩ := h.points hz hself
  obtain ⟨-, -, hle, -, -⟩ := hz.enclosing hw
  simpa using hle

/-! ## Equal types unroll alike -/

/-- Where the comparison of `a` and `b` can be: at places of the two, with their kinds up to the
optional flag, and with the pairs of enclosing places noted as far up as self references can lead on
both sides. -/
structure Compares (a b : Ty) (x : Site) (ka : Kind) (y : Site) (kb : Kind)
    (seen : List (List Nat × List Nat)) : Prop where
  left : x.In a
  right : y.In b
  kind_left : ka = x.node.kind.withOptional ka.optional
  kind_right : kb = y.node.kind.withOptional kb.optional
  noted : ∃ i j, x.Inward a i ∧ y.Inward b j ∧ ∀ d, 0 < d → d ≤ i → d ≤ j →
  (x.path.drop d, y.path.drop d) ∈ seen

namespace Compares

lemma start (ha : a.Scoped) (hb : b.Scoped) :
    Compares a b ⟨a, [], []⟩ a.kind ⟨b, [], []⟩ b.kind [] where
  left := .root a
  right := .root b
  kind_left := rfl
  kind_right := rfl
  noted := ⟨0, 0, ha.inward_root, hb.inward_root, fun d hpos hle => absurd hle (by omega)⟩

lemma up_left (h : Compares a b x ka y kb seen) (ha : a.Sealed) (hself : ka.isSelf)
    (hz : x.enclosing? ka.slot = some z) :
    Compares a b z (z.node.kind.withOptional ka.optional) y kb seen where
  left := (h.left.enclosing hz).1
  right := h.right
  kind_left := rfl
  kind_right := h.kind_right
  noted := by
    obtain ⟨-, j, -, hj, -⟩ := h.noted
    have hkind := h.kind_left
    rw [hkind] at hself hz
    exact ⟨0, j, ha x h.left hself z hz, hj, fun d hpos hle => absurd hle (by omega)⟩

lemma swap (h : Compares a b x ka y kb seen) : Compares b a y kb x ka (seen.map Prod.swap) where
  left := h.right
  right := h.left
  kind_left := h.kind_right
  kind_right := h.kind_left
  noted := by
    obtain ⟨i, j, hi, hj, hnoted⟩ := h.noted
    refine ⟨j, i, hj, hi, fun d hpos hdj hdi => ?_⟩
    exact List.mem_map.2 ⟨_, hnoted d hpos hdi hdj, rfl⟩

lemma up_right (h : Compares a b x ka y kb seen) (hb : b.Sealed) (hself : kb.isSelf)
    (hz : y.enclosing? kb.slot = some z) :
    Compares a b x ka z (z.node.kind.withOptional kb.optional) seen := by
  have hswap := (h.swap.up_left hb hself hz).swap
  rwa [List.map_map, Prod.swap_swap_eq, List.map_id] at hswap

lemma down (h : Compares a b x ka y kb seen) (hp : x.node.params[i]? = some p)
    (hq : y.node.params[i]? = some q) :
    Compares a b (x.child i p.2) p.2.kind (y.child i q.2) q.2.kind ((x.path, y.path) :: seen) where
  left := h.left.child hp
  right := h.right.child hq
  kind_left := rfl
  kind_right := rfl
  noted := by
    obtain ⟨l, r, hl, hr, hnoted⟩ := h.noted
    refine ⟨l + 1, r + 1, hl.child i p.2, hr.child i q.2, fun d hpos hdl hdr => ?_⟩
    obtain ⟨d, rfl⟩ : ∃ e, d = e + 1 := ⟨d - 1, by omega⟩
    cases d with
    | zero => exact mem_cons_self
    | succ d => exact mem_cons_of_mem _ (hnoted (d + 1) (by omega) (by omega) (by omega))

lemma enclosing_noted (h : Compares a b x ka y ka seen) (hself : ka.isSelf) (ha : a.Scoped)
    (hb : b.Scoped) :
    ∃ z w, x.enclosing? ka.slot = some z ∧ y.enclosing? ka.slot = some w ∧ z.In a ∧ w.In b ∧
    (z.path, w.path) ∈ seen := by
  obtain ⟨i, j, hi, hj, hnoted⟩ := h.noted
  have hslot : x.node.kind.slot = ka.slot ∧ y.node.kind.slot = ka.slot := by
    rw [h.kind_left]
    exact ⟨rfl, (congrArg (·.slot) (h.kind_right.symm.trans h.kind_left) : _)⟩
  have hx : x.node.kind.isSelf := by rw [h.kind_left] at hself; exact hself
  have hy : y.node.kind.isSelf := by rw [h.kind_right] at hself; exact hself
  obtain ⟨z, hz⟩ := ha.points h.left hx
  obtain ⟨w, hw⟩ := hb.points h.right hy
  have hdi := hi x h.left (suffix_refl _) hx
  have hdj := hj y h.right (suffix_refl _) hy
  rw [hslot.1] at hz hdi
  rw [hslot.2] at hw hdj
  obtain ⟨hza, hpos, -, hzpath, -⟩ := h.left.enclosing hz
  obtain ⟨hwb, -, -, hwpath, -⟩ := h.right.enclosing hw
  refine ⟨z, w, hz, hw, hza, hwb, ?_⟩
  rw [hzpath, hwpath]
  exact hnoted ka.slot hpos (by omega) (by omega)

end Compares

def Agree (a b : Ty) (n : Nat) (seen : List (List Nat × List Nat)) : Prop :=
  ∀ x y : Site, x.In a → y.In b → (x.path, y.path) ∈ seen →
    ∀ o, x.unroll n (x.node.kind.withOptional o) = y.unroll n (y.node.kind.withOptional o)

lemma mapIdx_unroll_eq (hlen : ps.length = qs.length)
    (h : ∀ i p q, ps[i]? = some p → qs[i]? = some q →
      p.1 = q.1 ∧ (x.child i p.2).unroll n p.2.kind = (y.child i q.2).unroll n q.2.kind) :
    (ps.mapIdx fun i p => (p.1, (x.child i p.2).unroll n p.2.kind)) =
      qs.mapIdx fun i q => (q.1, (y.child i q.2).unroll n q.2.kind) := by
  refine ext_getElem? fun i => ?_
  rw [getElem?_mapIdx, getElem?_mapIdx]
  cases hp : ps[i]? with
  | none =>
    have hq : qs[i]? = none := by
      rwa [List.getElem?_eq_none_iff, ← hlen, ← List.getElem?_eq_none_iff]
    rw [hq]
    rfl
  | some p =>
    obtain ⟨q, hq⟩ : ∃ q, qs[i]? = some q := by
      obtain ⟨hi, -⟩ := List.getElem?_eq_some_iff.1 hp
      exact ⟨qs[i], getElem?_eq_getElem (hlen ▸ hi)⟩
    obtain ⟨hname, hunroll⟩ := h i p q hp hq
    rw [hq, map_some, map_some, hname, hunroll]

lemma Compares.agree_cons (h : Compares a b x ka y ka seen) (hka : ka.isSelf = false)
    (hseen : Agree a b n seen)
    (hunroll : x.unroll n ka = y.unroll n ka) : Agree a b n ((x.path, y.path) :: seen) := by
  intro x' y' hx' hy' hmem o
  obtain hpaths | hmem := mem_cons.1 hmem
  · obtain ⟨hxpath, hypath⟩ := Prod.mk.inj hpaths
    obtain rfl := hx'.eq_of_path h.left hxpath
    obtain rfl := hy'.eq_of_path h.right hypath
    rw [← Kind.withOptional_eq h.kind_left, ← Kind.withOptional_eq h.kind_right]
    exact Site.unroll_withOptional hka hka hunroll o
  · exact hseen x' y' hx' hy' hmem o

/-- What is found equal unrolls to the same tree. The depth goes down with the parameters; a pair
that is met again unrolls alike as far as the pairs noted do, and these are the pairs on the way
here, at a smaller depth. -/
lemma Compares.unroll_eq (ha : a.Scoped) (hb : b.Scoped) (hsa : a.Sealed) (hsb : b.Sealed)
    (h : Compares a b x ka y kb seen)
    (hseen : ∀ m ≤ n, Agree a b m seen) (heq : equalAt fuel x ka y kb seen = some true) :
    x.unroll n ka = y.unroll n kb := by
  induction n using Nat.strong_induction_on generalizing fuel x ka y kb seen with
  | h n ihn =>
    induction fuel generalizing x ka y kb seen with
    | zero => cases heq
    | succ fuel ihf =>
      by_cases hself : ka.isSelf = kb.isSelf
      · obtain ⟨rfl, hnodes⟩ := equalAt_true_cases hself heq
        cases hka : ka.isSelf with
        | true =>
          obtain ⟨z, w, hz, hw, hza, hwb, hnoted⟩ := h.enclosing_noted hka ha hb
          rw [Site.unroll_of_self hka hz (ha.enclosing_not_self h.left hz),
            Site.unroll_of_self hka hw (hb.enclosing_not_self h.right hw)]
          exact hseen n le_rfl z w hza hwb hnoted ka.optional
        | false =>
          cases n with
          | zero => rfl
          | succ n =>
            obtain ⟨k, k', hx, hy⟩ | hmem | ⟨k, k', name, cs, ps, qs, hx, hy, hlen, hparams⟩ :=
              hnodes
            · simp only [Site.unroll_of_not_self hka, hx, hy]
            · have hagree := hseen (n + 1) le_rfl x y h.left h.right hmem ka.optional
              rwa [← h.kind_left, ← h.kind_right] at hagree
            · have hnoted : ∀ m ≤ n, Agree a b m ((x.path, y.path) :: seen) := fun m hm =>
                h.agree_cons hka (hseen m (by omega))
                  (ihn m (by omega) h (fun l hl => hseen l (by omega)) heq)
              simp only [Site.unroll_of_not_self hka, hx, hy]
              refine congrArg (detailed ka name · cs) (mapIdx_unroll_eq hlen fun i p q hp hq => ?_)
              obtain ⟨hname, hsame⟩ := hparams i p q hp hq
              have hp' : x.node.params[i]? = some p := by rwa [hx]
              have hq' : y.node.params[i]? = some q := by rwa [hy]
              exact ⟨hname, ihn n (by omega) (h.down hp' hq') hnoted hsame⟩
      · cases hka : ka.isSelf with
        | true =>
          have hkb : kb.isSelf = false := by simpa [hka] using hself
          rw [equalAt_left hka hkb] at heq
          split at heq
          · next z hz =>
            rw [Site.unroll_of_self hka hz (ha.enclosing_not_self h.left hz)]
            exact ihf (h.up_left hsa hka hz) hseen heq
          · cases heq
        | false =>
          have hkb : kb.isSelf := by simpa [hka] using hself
          rw [equalAt_right hka hkb] at heq
          split at heq
          · next z hz =>
            rw [Site.unroll_of_self hkb hz (hb.enclosing_not_self h.right hz)]
            exact ihf (h.up_right hsb hkb hz) hseen heq
          · cases heq

def tree (t : Ty) (n : Nat) : Ty := Site.unroll n ⟨t, [], []⟩ t.kind

lemma tree_eq_of_equal (ha : a.Scoped) (hb : b.Scoped) (hsa : a.Sealed) (hsb : b.Sealed)
    (h : equal a b) (n : Nat) : a.tree n = b.tree n := by
  have heq : equalAt (equalBudget a b) ⟨a, [], []⟩ a.kind ⟨b, [], []⟩ b.kind [] = some true := by
    unfold equal equal? at h
    cases hverdict : equalAt (equalBudget a b) ⟨a, [], []⟩ a.kind ⟨b, [], []⟩ b.kind [] with
    | none => simp [hverdict] at h
    | some verdict => simpa [hverdict] using h
  exact (Compares.start ha hb).unroll_eq ha hb hsa hsb (fun m _ => nofun) heq

/-! ## Types that unroll alike are equal -/

/-- Two places stand for the same tree, up to the optional flag. -/
def Site.Alike (x y : Site) : Prop :=
  ∀ n, x.unroll n (x.node.kind.withOptional false) = y.unroll n (y.node.kind.withOptional false)

/-- Self references that are the same parameter of places that stand for the same tree have the same
distance. -/
def Aligned (a b : Ty) : Prop :=
  ∀ x y : Site, x.In a → y.In b → x.Alike y → ∀ (i : Nat) (p q : Param), x.node.params[i]? =
    some p → y.node.params[i]? = some q →
      p.2.kind.isSelf → q.2.kind.isSelf → p.2.kind.slot = q.2.kind.slot

lemma nodes_of_unroll_eq (hx : ka.isSelf = false) (hy : kb.isSelf = false)
    (h : ∀ n, x.unroll n ka = y.unroll n kb) :
    ka = kb ∧ ((∃ k k', x.node = .plain k ∧ y.node = .plain k') ∨
      ∃ k k' name cs ps qs, x.node = .detailed k name ps cs ∧ y.node = .detailed k' name qs cs ∧
      ps.length = qs.length ∧ ∀ i p q, ps[i]? = some p → qs[i]? = some q → p.1 = q.1 ∧
          ∀ n, (x.child i p.2).unroll n p.2.kind = (y.child i q.2).unroll n q.2.kind) := by
  have hkind : ka = kb := by
    simpa only [Site.kind_unroll hx, Site.kind_unroll hy] using congrArg kind (h 1)
  subst hkind
  refine ⟨rfl, ?_⟩
  have hnode (n : Nat) := h (n + 1)
  simp only [Site.unroll_of_not_self hx] at hnode
  cases hnx : x.node with
  | plain k =>
    cases hny : y.node with
    | plain k' => exact .inl ⟨k, k', rfl, rfl⟩
    | detailed k' m qs ds => simp [hnx, hny] at hnode
  | detailed k name ps cs =>
    cases hny : y.node with
    | plain k' => simp [hnx, hny] at hnode
    | detailed k' name' qs ds =>
      simp only [hnx, hny, detailed.injEq, true_and] at hnode
      obtain ⟨rfl, hlists, rfl⟩ := hnode 0
      refine .inr ⟨k, k', name, cs, ps, qs, rfl, rfl, by simpa using congrArg length hlists,
        fun i p q hp hq => ?_⟩
      have hparam (n : Nat) : (p.1, (x.child i p.2).unroll n p.2.kind) =
        (q.1, (y.child i q.2).unroll n q.2.kind) := by
        have hget := congrArg (·[i]?) (hnode n).2.1
        simpa only [getElem?_mapIdx, hp, hq, map_some, some.injEq] using hget
      exact ⟨(Prod.mk.inj (hparam 0)).1, fun n => (Prod.mk.inj (hparam n)).2⟩

lemma equalParams_ne_false {same : Nat → Ty → Ty → Option Bool} (hlen : ps.length = qs.length)
    (h : ∀ j p q, ps[j]? = some p → qs[j]? = some q → p.1 = q.1 ∧
    same (i + j) p.2 q.2 ≠ some false) : equalParams same i ps qs ≠ some false := by
  induction ps generalizing qs i with
  | nil =>
    cases qs with
    | nil => simp [equalParams]
    | cons q qs => cases hlen
  | cons p ps ih =>
    cases qs with
    | nil => cases hlen
    | cons q qs =>
      obtain ⟨n, t⟩ := p
      obtain ⟨m, u⟩ := q
      obtain ⟨hname, hsame⟩ := h 0 (n, t) (m, u) rfl rfl
      rw [equalParams, if_pos hname]
      split
      · refine ih (by simpa using hlen) fun j p q hp hq => ?_
        simpa [Nat.add_right_comm, Nat.add_assoc] using h (j + 1) p q hp hq
      · exact hsame

lemma Scoped.kind_not_self (h : t.Scoped) : t.kind.isSelf = false := by
  rw [Bool.eq_false_iff]
  intro hself
  obtain ⟨z, hz⟩ := h.points (s := ⟨t, [], []⟩) (.root t) hself
  simp [Site.enclosing?] at hz

lemma Scoped.exists_enclosing (h : t.Scoped) (hs : s.In t)
    (hk : k = s.node.kind.withOptional k.optional) (hself : k.isSelf) :
    ∃ z, s.enclosing? k.slot = some z := by
  rw [hk] at hself ⊢
  exact h.points hs hself

lemma Scoped.kind_eq_of_self (ha : a.Scoped) (hb : b.Scoped) (hx : x.In a) (hy : y.In b)
    (hka : ka = x.node.kind.withOptional ka.optional)
    (hkb : kb = y.node.kind.withOptional kb.optional) (hselfx : ka.isSelf)
    (hselfy : kb.isSelf) (hslot : ka.slot = kb.slot) (hunroll : x.unroll 1 ka = y.unroll 1 kb) :
    ka = kb := by
  obtain ⟨z, hz⟩ := ha.exists_enclosing hx hka hselfx
  obtain ⟨w, hw⟩ := hb.exists_enclosing hy hkb hselfy
  have hzs := ha.enclosing_not_self hx hz
  have hws := hb.enclosing_not_self hy hw
  rw [Site.unroll_of_self hselfx hz hzs, Site.unroll_of_self hselfy hw hws] at hunroll
  have hkinds := congrArg kind hunroll
  rw [Site.kind_unroll (k := z.node.kind.withOptional ka.optional) hzs,
    Site.kind_unroll (k := w.node.kind.withOptional kb.optional) hws] at hkinds
  have hopt : ka.optional = kb.optional := congrArg (·.optional) hkinds
  have hbits : ka.bits = kb.bits := (beq_iff_eq.1 hselfx).trans (beq_iff_eq.1 hselfy).symm
  cases ka
  cases kb
  simp_all

lemma equalAt_ne_false (ha : a.Scoped) (hb : b.Scoped) (hal : Aligned a b) (hx : x.In a)
    (hy : y.In b) (hka : ka = x.node.kind.withOptional ka.optional)
    (hkb : kb = y.node.kind.withOptional kb.optional) (hunroll : ∀ n, x.unroll n ka = y.unroll n kb)
    (hslot : ka.isSelf → kb.isSelf → ka.slot = kb.slot) :
    equalAt fuel x ka y kb seen ≠ some false := by
  induction fuel generalizing x ka y kb seen with
  | zero => nofun
  | succ fuel ih =>
    cases hxs : ka.isSelf <;> cases hys : kb.isSelf
    · obtain ⟨rfl, ⟨k, k', hnx, hny⟩ | ⟨k, k', name, cs, ps, qs, hnx, hny, hlen, hparams⟩⟩ :=
        nodes_of_unroll_eq hxs hys hunroll
      · rw [equalAt_of_same_isSelf rfl, if_pos rfl, hnx, hny]
        nofun
      · have halike : x.Alike y := by
          intro n
          rw [← Kind.withOptional_eq hka, ← Kind.withOptional_eq hkb]
          exact Site.unroll_withOptional hxs hxs (hunroll n) false
        rw [equalAt_of_same_isSelf rfl, if_pos rfl, hnx, hny]
        dsimp only
        split
        · nofun
        · rw [if_pos ⟨rfl, rfl, hlen⟩]
          refine equalParams_ne_false hlen fun i p q hp hq => ?_
          obtain ⟨hname, hchild⟩ := hparams i p q hp hq
          have hp' : x.node.params[i]? = some p := by rwa [hnx]
          have hq' : y.node.params[i]? = some q := by rwa [hny]
          rw [Nat.zero_add]
          exact ⟨hname, ih (hx.child hp') (hy.child hq') rfl rfl hchild
            (hal x y hx hy halike i p q hp' hq')⟩
    · obtain ⟨w, hw⟩ := hb.exists_enclosing hy hkb hys
      have hwy (n : Nat) := Site.unroll_of_self hys hw (hb.enclosing_not_self hy hw) n
      rw [equalAt_right hxs hys, hw]
      exact ih hx (hy.enclosing hw).1 hka rfl (fun n => (hunroll n).trans (hwy n)) fun hself => by
        simp [hxs] at hself
    · obtain ⟨z, hz⟩ := ha.exists_enclosing hx hka hxs
      have hzx (n : Nat) := Site.unroll_of_self hxs hz (ha.enclosing_not_self hx hz) n
      rw [equalAt_left hxs hys, hz]
      refine ih (hx.enclosing hz).1 hy rfl hkb (fun n => (hzx n).symm.trans (hunroll n))
        fun _ hself => ?_
      simp [hys] at hself
    · have hkind := ha.kind_eq_of_self hb hx hy hka hkb hxs hys (hslot hxs hys) (hunroll 1)
      have hnx := ha.leaf x hx (by rw [hka] at hxs; exact hxs)
      have hny := hb.leaf y hy (by rw [hkb] at hys; exact hys)
      rw [equalAt_of_same_isSelf (hxs.trans hys.symm), if_pos hkind]
      cases hx' : x.node with
      | plain k =>
        cases hy' : y.node with
        | plain k' => nofun
        | detailed k' m qs ds => simp [hy', isDetailed] at hny
      | detailed k n ps cs => simp [hx', isDetailed] at hnx

lemma equal_of_tree_eq (ha : a.Scoped) (hb : b.Scoped) (hal : Aligned a b)
    (h : ∀ n, a.tree n = b.tree n) : equal a b := by
  have hne : equal? (equalBudget a b) a b ≠ some false :=
    equalAt_ne_false ha hb hal (.root a) (.root b) rfl rfl h fun hself => by
      simp [ha.kind_not_self] at hself
  exact equal_of_ne_false hne

end Ty

end Resolvent
