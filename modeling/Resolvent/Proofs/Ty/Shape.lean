import Resolvent.Subst.Unify
import Resolvent.Proofs.Ty.Equality
import Mathlib.Order.Bounds.Basic
import Mathlib.Order.BooleanAlgebra.Basic
import Mathlib.Data.List.Perm.Basic
import Mathlib.Data.Fintype.Basic

/-!
# Shapes of simple types

A simple type is a primitive type, `any`, `void`, `typ`, or a container of simple types.
-/

namespace Resolvent

open List Option

/-- The kinds of primitive types, and the kinds that have nothing to do with others. -/
inductive Basic where
  | void | typ | bool | num | int | real | flags | span | char | str | raw | uuid | time | enum
  deriving DecidableEq

instance : Fintype Basic where
  elems := {.void, .typ, .bool, .num, .int, .real, .flags, .span, .char, .str, .raw, .uuid,
  .time, .enum}
  complete b := by cases b <;> decide

/-- The kinds of containers whose elements all have one type. -/
inductive Access where
  | idxr | keyr | list | dict
  deriving DecidableEq

instance : Fintype Access where
  elems := {.idxr, .keyr, .list, .dict}
  complete k := by cases k <;> decide

namespace Basic

def kind : Basic → Kind
  | void => .void
  | typ => .typ
  | bool => .bool
  | num => .num
  | int => .int
  | real => .real
  | flags => .flags
  | span => .span
  | char => .char
  | str => .str
  | raw => .raw
  | uuid => .uuid
  | time => .time
  | enum => .enum

/-- The kind with the bits that two kinds have in common, if it is one. -/
def join (b c : Basic) : Option Basic :=
  if b = c then some b
  else [num, int, char, str].find? fun u => u.kind.bits == b.kind.bits &&& c.kind.bits

instance : LE Basic := ⟨fun b c => b.join c = some c⟩

instance (b c : Basic) : Decidable (b ≤ c) := inferInstanceAs (Decidable (b.join c = some c))

instance : PartialOrder Basic where
  le_refl := by decide
  le_trans := by decide
  le_antisymm := by decide

lemma le_iff_of_join : ∀ b c u : Basic, (b ≤ u ∧ c ≤ u) ↔ ∃ x ∈ b.join c, x ≤ u := by decide

end Basic

namespace Access

def kind : Access → Kind
  | idxr => .idxr
  | keyr => .keyr
  | list => .list
  | dict => .dict

/-- The kind with the bits that two kinds have in common, if there are any. -/
def join (k l : Access) : Option Access :=
  if k = l then some k else [idxr, keyr].find? fun u => u.kind.bits == k.kind.bits &&& l.kind.bits

instance : LE Access := ⟨fun k l => k.join l = some l⟩

instance (k l : Access) : Decidable (k ≤ l) := inferInstanceAs (Decidable (k.join l = some l))

instance : PartialOrder Access where
  le_refl := by decide
  le_trans := by decide
  le_antisymm := by decide

lemma le_iff_of_join : ∀ k l u : Access, (k ≤ u ∧ l ≤ u) ↔ ∃ x ∈ k.join l, x ≤ u := by decide

end Access

/-- A simple type without its optional flag. -/
inductive Shape where
  | any
  /-- A primitive kind, with name and constants if it has them. -/
  | basic (kind : Basic) (detail : Option (String × List (String × Int64)))
  /-- A container of which no element type is known. -/
  | bare (access : Access)
  | cont (access : Access) (optional : Bool) (elem : Shape)

instance : Inhabited Shape := ⟨.any⟩

namespace Shape

/-- How many containers stand one inside the other, not counting an innermost one without an element
type. -/
def depth : Shape → Nat
  | cont _ _ e => e.depth + 1
  | _ => 0

/-- The most specific shape that is more general than both. -/
def join : Shape → Shape → Option Shape
  | any, b => some b
  | a, any => some a
  | basic b d, basic c e => if b = c ∧ d = e then some (basic b d)
      else (b.join c).map (basic · none)
  | bare k, bare l => (k.join l).map bare
  | bare k, cont l o e => (k.join l).map (cont · o e)
  | cont k o e, bare l => (k.join l).map (cont · o e)
  | cont k o e, cont l p f => (k.join l).bind fun u => (join e f).map (cont u (o || p))
  | _, _ => none

def Le : Shape → Shape → Prop
  | any, _ => True
  | basic b d, basic c e => b = c ∧ d = e ∨ e = none ∧ b ≤ c
  | bare k, bare l => k ≤ l
  | bare k, cont l _ _ => k ≤ l
  | cont k o e, cont l p f => k ≤ l ∧ o ≤ p ∧ e.Le f
  | _, _ => False

instance : LE Shape := ⟨Le⟩

lemma le_def {a b : Shape} : a ≤ b ↔ a.Le b := .rfl

instance : PartialOrder Shape where
  le_refl a := by
    induction a with
    | cont k o e ih => exact ⟨le_refl k, le_refl o, ih⟩
    | _ => simp [le_def, Le]
  le_trans a b c hab hbc := by
    simp only [le_def] at *
    fun_induction Le a b generalizing c with
    | case5 k o e l p f ih => cases c <;> grind [Le]
    | _ => cases c <;> grind [Le]
  le_antisymm a b hab hba := by
    simp only [le_def] at *
    fun_induction Le a b with
    | case5 k o e l p f ih => grind [Le]
    | _ => grind [Le, cases Shape]

variable {a b c u : Shape}

lemma any_le (a : Shape) : any ≤ a := trivial

lemma le_iff_of_join (a b u : Shape) : (a ≤ u ∧ b ≤ u) ↔ ∃ c ∈ a.join b, c ≤ u := by
  simp only [le_def]
  fun_induction join a b generalizing u with
  | case1 b => simp [Le]
  | case2 a => simp [Le]
  | case3 b d c e h => simp [h]
  | case4 b d c e h =>
    simp only [Option.mem_map, exists_exists_and_eq_and]
    cases u with
    | basic x f =>
      -- Equal kinds with different details are below the kind itself.
      have hjoin := Basic.le_iff_of_join b c x
      have hself (y : Basic) : y = x → y ≤ x := fun h => h ▸ le_refl x
      cases f <;> grind [Le]
    | _ => simp [Le]
  | case5 k l =>
    simp only [Option.mem_map, exists_exists_and_eq_and]
    cases u with
    | bare x => exact Access.le_iff_of_join k l x
    | cont x p f => exact Access.le_iff_of_join k l x
    | _ => simp [Le]
  | case6 k l o e =>
    simp only [Option.mem_map, exists_exists_and_eq_and]
    cases u with
    | cont x p f =>
      have hjoin := Access.le_iff_of_join k l x
      grind [Le]
    | _ => simp [Le]
  | case7 k o e l =>
    simp only [Option.mem_map, exists_exists_and_eq_and]
    cases u with
    | cont x p f =>
      have hjoin := Access.le_iff_of_join k l x
      grind [Le]
    | _ => simp [Le]
  | case8 k o e l p f ih =>
    simp only [mem_def, bind_eq_some_iff, map_eq_some_iff]
    cases u with
    | cont x q g =>
      have hflag : (o || p) ≤ q ↔ o ≤ q ∧ p ≤ q := by cases o <;> cases p <;> simp
      constructor
      · rintro ⟨⟨hk, ho, he⟩, hl, hp, hf⟩
        obtain ⟨m, hm, hmx⟩ := (Access.le_iff_of_join k l x).1 ⟨hk, hl⟩
        obtain ⟨c, hc, hcg⟩ := (ih g).1 ⟨he, hf⟩
        exact ⟨_, ⟨m, hm, c, hc, rfl⟩, hmx, hflag.2 ⟨ho, hp⟩, hcg⟩
      · rintro ⟨_, ⟨m, hm, c, hc, rfl⟩, hmx, hop, hcg⟩
        obtain ⟨hk, hl⟩ := (Access.le_iff_of_join k l x).2 ⟨m, hm, hmx⟩
        obtain ⟨he, hf⟩ := (ih g).2 ⟨c, hc, hcg⟩
        exact ⟨⟨hk, (hflag.1 hop).1, he⟩, hl, (hflag.1 hop).2, hf⟩
    | _ => grind [Le]
  | case9 a b h₁ h₂ h₃ h₄ h₅ h₆ h₇ => cases u <;> cases a <;> cases b <;> grind [Le]

lemma left_le_join (h : a.join b = some c) : a ≤ c := ((le_iff_of_join a b c).2 ⟨c, h, le_refl c⟩).1

lemma join_of_le (h : b ≤ a) : a.join b = some a := by
  obtain ⟨c, hc, hle⟩ := (le_iff_of_join a b a).1 ⟨le_refl a, h⟩
  rwa [le_antisymm hle (left_le_join hc)] at hc

lemma join_self (a : Shape) : a.join a = some a := join_of_le (le_refl a)

lemma depth_join (h : a.join b = some c) : c.depth ≤ max a.depth b.depth := by
  fun_induction join a b generalizing c with
  | case1 | case2 | case3 =>
    cases h
    simp
  | case4 | case5 | case6 | case7 =>
    obtain ⟨x, -, rfl⟩ := map_eq_some_iff.1 h
    simp [depth]
  | case8 k o e l p f ih =>
    obtain ⟨u, -, hc⟩ := bind_eq_some_iff.1 h
    obtain ⟨x, hx, rfl⟩ := map_eq_some_iff.1 hc
    have := ih hx
    simp only [depth]
    omega
  | case9 => cases h

/-! ## Shapes with flags -/

def merge (x y : Bool × Shape) : Option (Bool × Shape) := (x.2.join y.2).map (x.1 || y.1, ·)

variable {x y z : Bool × Shape} {l m : List (Bool × Shape)}

lemma le_iff_of_merge (x y u : Bool × Shape) : (x ≤ u ∧ y ≤ u) ↔ ∃ z ∈ merge x y, z ≤ u := by
  have hflag : (x.1 || y.1) ≤ u.1 ↔ x.1 ≤ u.1 ∧ y.1 ≤ u.1 := sup_le_iff
  have hshape := le_iff_of_join x.2 y.2 u.2
  simp only [merge, mem_def, map_eq_some_iff] at hshape ⊢
  constructor
  · rintro ⟨⟨hx, hx'⟩, hy, hy'⟩
    obtain ⟨c, hc, hcu⟩ := hshape.1 ⟨hx', hy'⟩
    exact ⟨_, ⟨c, hc, rfl⟩, hflag.2 ⟨hx, hy⟩, hcu⟩
  · rintro ⟨_, ⟨c, hc, rfl⟩, hu, hcu⟩
    obtain ⟨hx', hy'⟩ := hshape.2 ⟨c, hc, hcu⟩
    obtain ⟨hx, hy⟩ := hflag.1 hu
    exact ⟨⟨hx, hx'⟩, hy, hy'⟩

lemma merge_le_iff (h : merge x y = some z) (u : Bool × Shape) : z ≤ u ↔ x ≤ u ∧ y ≤ u := by
  rw [le_iff_of_merge, h]
  simp

lemma left_le_merge (h : merge x y = some z) : x ≤ z := ((merge_le_iff h z).1 le_rfl).1

lemma right_le_merge (h : merge x y = some z) : y ≤ z := ((merge_le_iff h z).1 le_rfl).2

lemma merge_of_le (h : y ≤ x) : merge x y = some x := by
  obtain ⟨z, hz, hle⟩ := (le_iff_of_merge x y x).1 ⟨le_rfl, h⟩
  rwa [le_antisymm hle (left_le_merge hz)] at hz

lemma merge_self (x : Bool × Shape) : merge x x = some x := merge_of_le le_rfl

lemma depth_merge {n : Nat} (h : merge x y = some z) (hx : x.2.depth ≤ n) (hy : y.2.depth ≤ n) :
    z.2.depth ≤ n := by
  obtain ⟨c, hc, rfl⟩ := map_eq_some_iff.1 h
  exact (depth_join hc).trans (max_le hx hy)

def mergeAll (x : Bool × Shape) (l : List (Bool × Shape)) : Option (Bool × Shape) :=
  l.foldlM merge x

lemma mergeAll_cons (x y : Bool × Shape) (l : List (Bool × Shape)) :
    mergeAll x (y :: l) = (merge x y).bind (mergeAll · l) := rfl

lemma le_iff_of_mergeAll (x : Bool × Shape) (l : List (Bool × Shape)) (u : Bool × Shape) :
    (∀ y ∈ x :: l, y ≤ u) ↔ ∃ z ∈ mergeAll x l, z ≤ u := by
  induction l generalizing x with
  | nil => simp [mergeAll]
  | cons y l ih =>
    rw [forall_mem_cons, forall_mem_cons, ← and_assoc, le_iff_of_merge]
    constructor
    · rintro ⟨⟨z, hz, hzu⟩, hl⟩
      obtain ⟨w, hw, hwu⟩ := (ih z).1 (forall_mem_cons.2 ⟨hzu, hl⟩)
      exact ⟨w, bind_eq_some_iff.2 ⟨z, hz, hw⟩, hwu⟩
    · rintro ⟨w, hw, hwu⟩
      obtain ⟨z, hz, hw⟩ := bind_eq_some_iff.1 hw
      obtain ⟨hzu, hl⟩ := forall_mem_cons.1 ((ih z).2 ⟨w, hw, hwu⟩)
      exact ⟨⟨z, hz, hzu⟩, hl⟩

lemma mergeAll_congr (h : ∀ z, z ∈ x :: l ↔ z ∈ y :: m) : mergeAll x l = mergeAll y m := by
  have habove (u : Bool × Shape) : (∃ z ∈ mergeAll x l, z ≤ u) ↔ ∃ z ∈ mergeAll y m, z ≤ u := by
    rw [← le_iff_of_mergeAll, ← le_iff_of_mergeAll]
    exact forall_congr' fun z => by rw [h z]
  cases hl : mergeAll x l with
  | none =>
    cases hm : mergeAll y m with
    | none => rfl
    | some z => simpa [hl] using (habove z).2 ⟨z, hm, le_refl z⟩
  | some z =>
    obtain ⟨w, hw, hwz⟩ := (habove z).1 ⟨z, hl, le_refl z⟩
    obtain ⟨z', hz', hzw⟩ := (habove w).2 ⟨w, hw, le_refl w⟩
    obtain rfl : z = z' := some_injective _ (hl.symm.trans hz')
    rw [hw, le_antisymm hzw hwz]

lemma mergeAll_eq_of_isLUB (h : IsLUB {y | y ∈ x :: l} z) : mergeAll x l = some z := by
  obtain ⟨w, hw, hwz⟩ := (le_iff_of_mergeAll x l z).1 h.1
  have hzw : z ≤ w := h.2 ((le_iff_of_mergeAll x l w).2 ⟨w, hw, le_refl w⟩)
  rw [le_antisymm hzw hwz]
  exact hw

lemma depth_mergeAll {n : Nat} (h : ∀ y ∈ x :: l, y.2.depth ≤ n) (hz : mergeAll x l = some z) :
    z.2.depth ≤ n := by
  induction l generalizing x with
  | nil =>
    cases hz
    exact h z (by simp)
  | cons y l ih =>
    obtain ⟨w, hw, hz⟩ := bind_eq_some_iff.1 hz
    refine ih (fun v hv => ?_) hz
    rcases mem_cons.1 hv with rfl | hv
    · exact depth_merge hw (h x (by simp)) (h y (by simp))
    · exact h v (by simp [hv])

end Shape

end Resolvent
