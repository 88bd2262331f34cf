import Resolvent.Proofs.Ty.Places
import Mathlib.Data.List.ProdSigma

/-!
# Meetings of places

A comparison of two types is a walk over meetings: a place of the one type meets a place of the
other, each read with a kind, and the pairs of places on the way are noted.
-/

namespace Resolvent.Ty

open List

/-- Two places that are compared, the kinds that they are read with, and the pairs of places on the
way there. -/
structure Meeting where
  left : Site
  leftKind : Kind
  right : Site
  rightKind : Kind
  seen : List (List Nat × List Nat)

namespace Meeting

def start (a b : Ty) : Meeting := ⟨⟨a, [], []⟩, a.kind, ⟨b, [], []⟩, b.kind, []⟩

def verdict? (fuel : Nat) (m : Meeting) : Option Bool :=
  equalAt fuel m.left m.leftKind m.right m.rightKind m.seen

/-- The first meeting may be asked for the verdict on the second one. -/
inductive Asked : Meeting → Meeting → Prop
  | left {x y z : Site} {ka kb : Kind} {seen : List (List Nat × List Nat)} (hka : ka.isSelf)
      (hkb : kb.isSelf = false) (hz : x.enclosing? ka.slot = some z) :
      Asked ⟨z, z.node.kind.withOptional ka.optional, y, kb, seen⟩ ⟨x, ka, y, kb, seen⟩
  | right {x y z : Site} {ka kb : Kind} {seen : List (List Nat × List Nat)}
      (hka : ka.isSelf = false) (hkb : kb.isSelf) (hz : y.enclosing? kb.slot = some z) :
      Asked ⟨x, ka, z, z.node.kind.withOptional kb.optional, seen⟩ ⟨x, ka, y, kb, seen⟩
  | param {x y : Site} {ka kb : Kind} {seen : List (List Nat × List Nat)} {i : Nat} {p q : Param}
      (hself : ka.isSelf = kb.isSelf) (hnew : (x.path, y.path) ∉ seen)
      (hp : x.node.params[i]? = some p) (hq : y.node.params[i]? = some q) :
      Asked ⟨x.child i p.2, p.2.kind, y.child i q.2, q.2.kind, (x.path, y.path) :: seen⟩ ⟨x, ka,
      y, kb, seen⟩

/-! ## One step of comparing -/

variable {a b : Ty} {ps qs : List Param} {i fuel fuel' : Nat} {m m' : Meeting}

lemma equalParams_agree {same same' : Nat → Ty → Ty → Option Bool}
    (h : ∀ j p q, ps[j]? = some p → qs[j]? = some q →
      ∃ v, same (i + j) p.2 q.2 = some v ∧ same' (i + j) p.2 q.2 = some v) :
    ∃ v, equalParams same i ps qs = some v ∧ equalParams same' i ps qs = some v := by
  induction ps generalizing qs i with
  | nil => cases qs <;> exact ⟨_, rfl, rfl⟩
  | cons p ps ih =>
    cases qs with
    | nil => exact ⟨false, rfl, rfl⟩
    | cons q qs =>
      obtain ⟨n, t⟩ := p
      obtain ⟨m, u⟩ := q
      rw [equalParams, equalParams]
      by_cases hname : n = m
      · obtain ⟨v, hv, hv'⟩ := h 0 (n, t) (m, u) rfl rfl
        rw [Nat.add_zero] at hv hv'
        rw [if_pos hname, if_pos hname, hv, hv']
        cases v with
        | false => exact ⟨false, rfl, rfl⟩
        | true => exact ih fun j p q hp
            hq => by simpa [Nat.add_right_comm, Nat.add_assoc] using h (j + 1) p q hp hq
      · rw [if_neg hname, if_neg hname]
        exact ⟨false, rfl, rfl⟩

lemma agree_succ (h : ∀ m', Asked m' m → ∃ v, m'.verdict? fuel = some v ∧
    m'.verdict? fuel' = some v) :
    ∃ v, m.verdict? (fuel + 1) = some v ∧ m.verdict? (fuel' + 1) = some v := by
  obtain ⟨x, ka, y, kb, seen⟩ := m
  rw [verdict?, verdict?]
  by_cases hself : ka.isSelf = kb.isSelf
  · rw [equalAt_of_same_isSelf hself, equalAt_of_same_isSelf hself]
    split
    · cases hx : x.node with
      | plain k => cases y.node <;> exact ⟨_, rfl, rfl⟩
      | detailed k n ps cs =>
        cases hy : y.node with
        | plain k' => exact ⟨false, rfl, rfl⟩
        | detailed k' m qs ds =>
          dsimp only
          split
          · exact ⟨true, rfl, rfl⟩
          · next hnew =>
            rw [contains_iff_mem] at hnew
            split
            · refine equalParams_agree fun j p q hp hq => ?_
              rw [Nat.zero_add]
              exact h _ (.param hself hnew (by rwa [hx]) (by rwa [hy]))
            · exact ⟨false, rfl, rfl⟩
    · exact ⟨false, rfl, rfl⟩
  · cases hka : ka.isSelf with
    | false =>
      have hkb : kb.isSelf := by simpa [hka] using hself
      rw [equalAt_right hka hkb, equalAt_right hka hkb]
      cases hz : y.enclosing? kb.slot with
      | none => exact ⟨false, rfl, rfl⟩
      | some z => exact h _ (.right hka hkb hz)
    | true =>
      have hkb : kb.isSelf = false := by simpa [hka] using hself
      rw [equalAt_left hka hkb, equalAt_left hka hkb]
      cases hz : x.enclosing? ka.slot with
      | none => exact ⟨false, rfl, rfl⟩
      | some z => exact h _ (.left hka hkb hz)

/-! ## The rank of a meeting -/

/-- The meeting can come up when the two types are compared: its places are places of the types, and
the pairs on the way are pairs of places, each noted once. -/
structure On (a b : Ty) (m : Meeting) : Prop where
  left : m.left.In a
  right : m.right.In b
  nodup : m.seen.Nodup
  noted : ∀ pair ∈ m.seen, pair.1 ∈ a.paths ∧ pair.2 ∈ b.paths

lemma On.start (a b : Ty) : On a b (.start a b) := ⟨.root a, .root b, .nil, forall_mem_nil _⟩

/-- The pairs that are not noted yet, each with a walk up both types before the next one is noted,
and the walks up that are left now. -/
def rank (a b : Ty) (m : Meeting) : Nat :=
  (a.size * b.size - m.seen.length) * (a.size + b.size + 2) + m.left.path.length +
    m.right.path.length

lemma rank_start_lt (a b : Ty) : (start a b).rank a b < equalBudget a b := by
  rw [equalBudget]
  simp [rank, start]

lemma On.length_seen_lt (h : On a b m) (hnew : (m.left.path, m.right.path) ∉ m.seen) :
    m.seen.length < a.size * b.size := by
  have hsub : (m.left.path, m.right.path) :: m.seen ⊆ a.paths ×ˢ b.paths := by
    refine cons_subset.2 ⟨mem_product.2 ⟨h.left.mem_paths, h.right.mem_paths⟩, fun pair hpair => ?_⟩
    exact mem_product.2 (h.noted pair hpair)
  have hle := (nodup_cons.2 ⟨hnew, h.nodup⟩).length_le_of_subset hsub
  rwa [length_product, length_paths, length_paths] at hle

lemma sub_succ_mul_add {m n : Nat} (h : m < n) (k : Nat) : (n - (m + 1)) * k + k = (n - m) * k := by
  obtain ⟨l, rfl⟩ : ∃ l, n = m + 1 + l := ⟨n - (m + 1), by omega⟩
  rw [Nat.add_sub_cancel_left, ← Nat.succ_mul]
  congr 1
  omega

lemma On.asked (h : On a b m) (hask : Asked m' m) : On a b m' := by
  cases hask with
  | left hka hkb hz => exact ⟨(h.left.enclosing hz).1, h.right, h.nodup, h.noted⟩
  | right hka hkb hz => exact ⟨h.left, (h.right.enclosing hz).1, h.nodup, h.noted⟩
  | param hself hnew hp hq =>
    refine ⟨h.left.child hp, h.right.child hq, nodup_cons.2 ⟨hnew, h.nodup⟩, ?_⟩
    exact forall_mem_cons.2 ⟨⟨h.left.mem_paths, h.right.mem_paths⟩, h.noted⟩

lemma On.rank_lt (h : On a b m) (hask : Asked m' m) : m'.rank a b < m.rank a b := by
  cases hask with
  | left hka hkb hz =>
    obtain ⟨-, hpos, hle, hpath, -⟩ := h.left.enclosing hz
    simp only [rank, hpath, length_drop] at hle ⊢
    omega
  | right hka hkb hz =>
    obtain ⟨-, hpos, hle, hpath, -⟩ := h.right.enclosing hz
    simp only [rank, hpath, length_drop] at hle ⊢
    omega
  | param hself hnew hp hq =>
    -- The pair that is noted pays for the two steps down, with as much to spare as walks up can
    -- take back.
    have hroom := sub_succ_mul_add (h.length_seen_lt hnew) (a.size + b.size + 2)
    have hsize : 0 < a.size := by cases a <;> simp only [size] <;> omega
    simp only [rank, Site.child, length_cons] at hroom ⊢
    omega

lemma On.acc (h : On a b m) : Acc Asked m := by
  generalize hr : m.rank a b = r
  induction r using Nat.strong_induction_on generalizing m with
  | h r ih => exact ⟨m, fun m' hask => ih _ (hr ▸ h.rank_lt hask) (h.asked hask) rfl⟩

lemma On.agree (h : On a b m) (hfuel : m.rank a b < fuel) (hfuel' : m.rank a b < fuel') :
    ∃ v, m.verdict? fuel = some v ∧ m.verdict? fuel' = some v := by
  induction fuel generalizing m fuel' with
  | zero => omega
  | succ fuel ih =>
    cases fuel' with
    | zero => omega
    | succ fuel' =>
      refine agree_succ fun m' hask => ?_
      have hlt := h.rank_lt hask
      exact ih (h.asked hask) (by omega) (by omega)

end Meeting

/-! ## The budget -/

lemma equal?_agree (a b : Ty) {fuel : Nat} (hfuel : equalBudget a b ≤ fuel) :
    ∃ v, equal? (equalBudget a b) a b = some v ∧ equal? fuel a b = some v := by
  have hrank := Meeting.rank_start_lt a b
  exact (Meeting.On.start a b).agree hrank (hrank.trans_le hfuel)

lemma equal_of_ne_false {a b : Ty} (h : equal? (equalBudget a b) a b ≠ some false) : equal a b := by
  obtain ⟨v, hv, -⟩ := equal?_agree a b (Nat.le_refl _)
  rw [equal, hv]
  cases v with
  | false => exact absurd hv h
  | true => rfl

/-- The comparison of any two types ends: no chain of meetings that ask each other goes on for ever,
and from the budget on all fuel leads to the verdict of the comparison. -/
theorem equal_terminates (a b : Ty) :
    Acc Meeting.Asked (.start a b) ∧ ∀ fuel, equalBudget a b ≤ fuel →
    equal? fuel a b = some (equal a b) := by
  refine ⟨(Meeting.On.start a b).acc, fun fuel hfuel => ?_⟩
  obtain ⟨v, hv, hv'⟩ := equal?_agree a b hfuel
  rw [hv', equal, hv, Option.getD_some]

end Resolvent.Ty
