import Resolvent.Proofs.Subst.Linear

/-!
# Realized types

Realizing gives up on types in which a variable is left, so that what it gives has no variables.
-/

namespace Resolvent.Subst

open Solve Ty

variable {s s' : Subst} {t u : Ty}

lemma realize_cases (h : (realize t).exec s = (.ok u, s')) :
    ∃ c, (choose (s.apply t)).exec s = (.ok c, s') ∧ u = s'.apply c ∧ s'.free u = [] := by
  rw [realize, realizeWith, exec_get_bind] at h
  obtain ⟨c, s₁, hc, h⟩ := exec_bind_eq_ok.1 h
  rw [exec_get_bind] at h
  dsimp only at h
  split at h
  · next hfree =>
    cases h
    exact ⟨c, hc, rfl, List.isEmpty_iff.1 hfree⟩
  · cases h

lemma Sound.outerVars_realize (hs : s.Sound) (h : (realize t).exec s = (.ok u, s')) :
    u.outerVars = [] := by
  obtain ⟨c, hc, rfl, hfree⟩ := realize_cases h
  have hs' : s'.Sound := hs.of_choose hc
  rw [List.eq_nil_iff_forall_not_mem]
  intro i hi
  have hmem : i ∈ s'.free (s'.apply c) :=
    hs'.mem_free_iff.2 ⟨⟨i, outerVars_subset_links s' _ hi, .refl⟩,
      hs'.get?_of_mem_outerVars_apply hi⟩
  simp [hfree] at hmem

lemma Sound.alternatives_realize (hs : s.Sound) (h : (realize t).exec s = (.ok u, s'))
    (hnodup : ((s.apply t).alternatives.flatMap outerVars).Nodup)
    (horderly : ∀ a ∈ (s.apply t).alternatives, ∃ keyed, a.Orderly keyed true) :
    u.alternatives = [] := by
  obtain ⟨c, hc, rfl, -⟩ := realize_cases h
  have hbag : ((s.apply t).alternatives.flatMap outerVars : Multiset Nat) = (s.apply t).altBag :=
    coe_flatMap_outerVars _
  have hnone {i : Nat} (hi : i ∈ (s.apply t).outerVars) : s.get? i = none :=
    hs.get?_of_mem_outerVars_apply hi
  have hmem {i : Nat} (hi : i ∈ (s.apply t).altBag) : i ∈ (s.apply t).outerVars := by
    rw [← hbag] at hi
    obtain ⟨a, ha, hi⟩ := List.mem_flatMap.1 hi
    exact outerVars_subset_of_mem_alternatives ha hi
  -- All variables of the type are unbound at first, so that there is no binding to be looked at.
  have hclear : s.Clear (s.apply t).outerVars.toFinset :=
    ⟨⟨hs, fun i hi b hb => by simp [hnone (List.mem_toFinset.1 hi)] at hb⟩,
      fun i hi b hb => by simp [hnone (List.mem_toFinset.1 hi)] at hb⟩
  have hheld : s.Held (s.apply t).outerVars.toFinset (s.apply t).altBag :=
    ⟨hbag ▸ Multiset.coe_nodup.2 hnodup, fun i hi => List.mem_toFinset.2 (hmem hi),
      fun i hi => hnone (hmem hi)⟩
  obtain ⟨hclear', -, hok⟩ :=
    resolves.chooseEach (fun i hi => List.mem_toFinset.2 hi) horderly s hclear hheld
  rw [hc] at hclear' hok
  obtain ⟨⟨hover, halts⟩, -⟩ := hok c rfl
  rw [hclear'.alternatives_apply hover (by simp [halts]), halts, List.map_nil]

/-- What is realized has no variables. It has no alternatives if, with bound variables replaced, no
variable occurs in alternatives twice, and if each alternative has no variables or only objects
whose fields have different keys. -/
theorem realize_resolves (ops : List Op) (h : (realize t).exec (after ops) = (.ok u, s')) :
    u.vars = [] ∧ ((((after ops).apply t).alternatives.flatMap outerVars).Nodup →
        (∀ a ∈ ((after ops).apply t).alternatives, a.outerVars = [] ∨ a.fieldsApart) →
        u.altFree) := by
  have hs := sound_after ops
  have hvars := hs.outerVars_realize h
  refine ⟨vars_eq_nil hvars, fun hnodup hparts => ?_⟩
  refine altFree_of_alternatives (hs.alternatives_realize h hnodup fun a ha => ?_) hvars
  rcases hparts a ha with hnone | hapart
  · exact ⟨false, orderly_of_outerVars hnone⟩
  · exact ⟨true, orderly_of_fieldsApart hapart⟩

def either : Ty := .alt [.obj "" [("x", .var 1 [])], .obj "" [("x", .int)]]

/-- A variable in an alternative and twice outside of it, and an alternative without variables. -/
def pending : Ty :=
  .obj "" [("a", .var 1 []), ("b", either), ("c", .var 1 []), ("d", .list (.alt [.int, .real]))]

def realized : Ty :=
  .obj "" [("a", .int), ("b", .obj "" [("x", .int)]), ("c", .int), ("d", .list .num)]

/-- Choosing from the first alternative binds the variable, and then it is known outside as well. -/
theorem realize_resolves_pending : (realize pending).exec (after [.newVar []]) =
    (.ok realized, (after [.newVar []]).assign 1 .int) ∧
    (((after [.newVar []]).apply pending).alternatives.flatMap outerVars).Nodup ∧
    (∀ a ∈ ((after [.newVar []]).apply pending).alternatives, a.outerVars = [] ∨ a.fieldsApart) ∧
    realized.vars = [] ∧ realized.altFree := by
  have hrun : (realize pending).exec (after [.newVar []]) =
    (.ok realized, (after [.newVar []]).assign 1 .int) := by cbv
  have halts : ((after [.newVar []]).apply pending).alternatives =
    [either, .alt [.int, .real]] := by cbv
  have hnodup : (((after [.newVar []]).apply pending).alternatives.flatMap outerVars).Nodup := by
    rw [halts]
    have hvars : [either, .alt [.int, .real]].flatMap outerVars = [1] := by cbv
    simp [hvars]
  have hapart : ∀ a ∈ ((after [.newVar []]).apply pending).alternatives, a.outerVars = [] ∨
    a.fieldsApart := by
    have hfields : either.fieldsApart := by cbv
    have hground : (Ty.alt [.int, .real]).outerVars = [] := by cbv
    simp [halts, hfields, hground]
  obtain ⟨hvars, haltFree⟩ := realize_resolves [.newVar []] hrun
  exact ⟨hrun, hnodup, hapart, hvars, haltFree hnodup hapart⟩

def doubled : Ty :=
  .obj "" [("a", .var 1 []),
    ("b", .alt [.obj "" [("x", .var 1 []), ("y", .var 1 [])], .obj "" [("x", .int), ("y", .real)]])]

/-- Variables that occur once, in an alternative with two fields of the same key. -/
def crossed : Ty :=
  .alt [.obj "" [("x", .var 1 []), ("X", .int), ("x", .real)], .obj "" [("x", .var 2 [])]]

/-- A variable that is met twice in an alternative is left with what it was both times: one that
occurs twice, and one that two fields of the same key find. -/
theorem realize_leaves_alternative :
    (∃ u, ((realize doubled).exec (after [.newVar []])).1 = .ok u ∧ u.vars = [] ∧
    u.altFree = false) ∧ crossed.outerVars = [1, 2] ∧
    ∃ u, ((realize crossed).exec (after [.newVar [], .newVar []])).1 = .ok u ∧ u.vars = [] ∧
    u.altFree = false := by
  refine ⟨⟨.obj "" [("a", .alt [.int, .num]), ("b", .obj "" [("x", .int), ("y", .num)])], by cbv,
    rfl, rfl⟩, by cbv, ?_⟩
  exact ⟨.obj "" [("x", .alt [.int, .num]), ("X", .int), ("x", .num)], by cbv, rfl, rfl⟩

end Resolvent.Subst
