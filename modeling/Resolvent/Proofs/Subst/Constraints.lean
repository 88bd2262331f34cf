import Resolvent.Proofs.Subst.Collect
import Resolvent.Proofs.Ty.Compatible

/-!
# Constraints over runs

A variable with constraints is bound only to a type that is compatible with one of them.
-/

namespace Resolvent.Subst

open Solve Ty List
open Shape (typed merge)

/-! ## Runs -/

/-- What may be handed in: a variable as it was given out, or a type that says all about itself. -/
def Arg (vs : List Ty) (t : Ty) : Prop :=
  t ∈ vs ∨ ∃ y, t = typed y ∧ y.2.depth ≤ Kind.maxDepth ∧ y.2.Definite

/-- The variables that were given out and the substitution, after calls for new variables and calls
that unify. No call unifies two unbound variables with different constraints. -/
inductive Calls : List Ty → Subst → Prop
  | empty : Calls [] {}
  | newVar {vs : List Ty} {s : Subst} (cs : List Ty) : (∀ c ∈ cs, ∃ y, c = typed y) → Calls vs s →
      Calls ((s.fresh cs).1 :: vs) (s.fresh cs).2
  | unify {vs : List Ty} {s : Subst} {a b : Ty} : Arg vs a → Arg vs b →
    (∀ i cs j ds, s.apply a = .var i cs → s.apply b = .var j ds → i = j ∨ cs = ds) →
    Calls vs s → Calls vs ((unify a b).exec s).2

/-! ## Constraints -/

variable {s s' : Subst} {vs cs ds : List Ty} {a b t : Ty} {l m : List (Bool × Shape)}
  {x y z : Bool × Shape} {i j : Nat}

def Meets (x : Bool × Shape) (cs : List Ty) : Prop :=
  cs = [] ∨ cs.any fun c => (fit (typed x) c).isCompatible

lemma Meets.mono (h : Meets x cs) (hcs : ∀ c ∈ cs, ∃ y, c = typed y) (hx : x.2.Definite)
    (hle : x ≤ z) : Meets z cs := by
  rcases h with h | h
  · exact .inl h
  · obtain ⟨c, hc, hfit⟩ := List.any_eq_true.1 h
    obtain ⟨y, rfl⟩ := hcs c hc
    refine .inr (List.any_eq_true.2 ⟨_, hc, ?_⟩)
    exact (Shape.isCompatible_fit _ _ _ _).2
      (Shape.fits_mono hx hle.2 ((Shape.isCompatible_fit _ _ _ _).1 hfit))

/-- The types of a list are not too deep, and one that says all about itself is above all others. -/
structure Certain (l : List (Bool × Shape)) (x : Bool × Shape) : Prop where
  depth : ∀ y ∈ l, y.2.depth ≤ Kind.maxDepth
  greatest : IsGreatest {y | y ∈ l} x
  definite : x.2.Definite

lemma Certain.append (h : Certain l x) (hz : z.2.depth ≤ Kind.maxDepth) (hle : x ≤ z) :
    Certain (l ++ [z]) z where
  depth := depth_append h.depth hz
  greatest := isGreatest_append h.greatest hle
  definite := h.definite.mono hle.2

/-! ## What holds after all calls -/

/-- What holds after all calls: a bound variable leads to types that meet its constraints, or to
another variable with the same constraints. -/
structure Guarded (vs : List Ty) (s : Subst) : Prop where
  sound : s.Sound
  given : ∀ v ∈ vs, ∃ i cs, v = .var i cs ∧ 0 < i ∧ i ≤ s.size ∧ ∀ c ∈ cs, ∃ y, c = typed y
  unique : ∀ i cs ds, .var i cs ∈ vs → .var i ds ∈ vs → cs = ds
  bindings : ∀ i b, s.get? i = some b →
  (∃ l x, b = alt (l.map typed) ∧ Certain l x ∧ ∀ cs, .var i cs ∈ vs → Meets x cs) ∨
    ∃ j ds, b = .var j ds ∧ .var j ds ∈ vs ∧ ∀ cs, .var i cs ∈ vs → cs = ds

lemma var_inj (h : var i cs = .var j ds) : i = j ∧ cs = ds :=
  ⟨by rw [← slot_var i cs, h, slot_var], by rw [← members_var i cs, h, members_var]⟩

/-- What an argument leads to: a variable that is not bound, or types that meet its constraints. -/
def Placed (vs : List Ty) (s : Subst) (a : Ty) : Prop :=
  (∃ j ds, s.apply a = .var j ds ∧ s.get? j = none ∧ .var j ds ∈ vs) ∨
  ∃ l x, s.Holds a l ∧ Certain l x ∧ ∀ i, a.varId? = some i → ∀ cs, .var i cs ∈ vs → Meets x cs

lemma Guarded.placed_var (hg : Guarded vs s) (ha : .var i cs ∈ vs) : Placed vs s (.var i cs) := by
  suffices all : ∀ (t : Ty) (i : Nat) (cs : List Ty), t = .var i cs → .var i cs ∈ vs →
    Placed vs s (.var i cs) from all _ i cs rfl ha
  intro t
  induction t using hg.sound.induct with
  | step t ih =>
    rintro i cs rfl ha
    cases hi : s.get? i with
    | none => exact .inl ⟨i, cs, hg.sound.apply_var_unbound hi, hi, ha⟩
    | some b =>
      rcases hg.bindings i b hi with ⟨l, x, rfl, hl, hmeets⟩ | ⟨j, ds, rfl, hj, hcs⟩
      · refine .inr ⟨l, x, hg.sound.holds_var cs hi (hg.sound.apply_ground (ground_alt l)) hl.depth,
          hl, ?_⟩
        intro k hk ds hds
        obtain rfl : i = k := by simpa using hk
        exact hmeets ds hds
      · have hlink : i ∈ s.links (.var i cs) :=
          outerVars_subset_links s _ (by simp [outerVars_of_isVar])
        rcases ih i hlink _ hi j ds rfl hj with ⟨k, es, happly, hk, hes⟩ | ⟨l, x, hl,
          hcertain, hmeets⟩
        · exact .inl ⟨k, es, by rw [hg.sound.apply_var_bound hi, happly], hk, hes⟩
        · refine .inr ⟨l, x, hg.sound.holds_var cs hi hl.apply_eq hl.depth, hcertain, ?_⟩
          intro k hk es hes
          obtain rfl : i = k := by simpa using hk
          rw [hcs es hes]
          exact hmeets j (by simp) ds hj

lemma Guarded.placed (hg : Guarded vs s) (ha : Arg vs a) : Placed vs s a := by
  rcases ha with ha | ⟨y, rfl, hy, hdef⟩
  · obtain ⟨i, cs, rfl, -⟩ := hg.given a ha
    exact hg.placed_var ha
  · refine .inr ⟨[y], y, hg.sound.holds_typed hy, ⟨by simpa using hy, ?_, hdef⟩, fun i hi => ?_⟩
    · simp
    · simp [varId?] at hi

/-! ## Steps -/

lemma Guarded.rebinds (hg : Guarded vs s) (hr : s.Rebinds i (alt (l.map typed)) s')
    (hl : Certain l x) (hmeets : ∀ cs, .var i cs ∈ vs → Meets x cs) : Guarded vs s' where
  sound := hr.sound
  given v hv := by
    obtain ⟨j, cs, rfl, hpos, hsize, hcs⟩ := hg.given v hv
    exact ⟨j, cs, rfl, hpos, hsize.trans hr.size_le, hcs⟩
  unique := hg.unique
  bindings j b hb := by
    by_cases hj : j = i
    · subst hj
      rw [hr.get?_self] at hb
      cases hb
      exact .inl ⟨l, x, rfl, hl, hmeets⟩
    · rw [hr.get?_of_ne j hj] at hb
      exact hg.bindings j b hb

lemma Guarded.noted (hg : Guarded vs s) (hn : s.Noted a l z s') (hz : Certain (l ++ [z]) z)
    (hmeets : ∀ i, a.varId? = some i → ∀ cs, .var i cs ∈ vs → Meets z cs) : Guarded vs s' := by
  unfold Noted at hn
  split at hn
  · next i hi =>
    rcases hn with ⟨_, rfl⟩ | hr
    · exact hg
    · exact hg.rebinds hr hz (hmeets i hi)
  · exact hn ▸ hg

lemma Guarded.unify_holds (hg : Guarded vs s) (ha : s.Holds a l) (hb : s.Holds b m)
    (hl : Certain l x) (hm : Certain m y)
    (hmeets : ∀ i, a.varId? = some i → ∀ cs, .var i cs ∈ vs → Meets x cs)
    (hmeets' : ∀ i, b.varId? = some i → ∀ cs, .var i cs ∈ vs → Meets y cs) :
    Guarded vs ((unify a b).exec s).2 := by
  have hcs (i : Nat) (cs : List Ty) (hv : .var i cs ∈ vs) : ∀ c ∈ cs, ∃ y, c = typed y := by
    obtain ⟨j, ds, heq, -, -, hds⟩ := hg.given _ hv
    obtain ⟨-, rfl⟩ := var_inj heq
    exact hds
  by_cases hsame : alt (l.map typed) = alt (m.map typed)
  · rw [hg.sound.exec_unify, unifyWith, exec_get_bind]
    simp only [ha.apply_eq, hb.apply_eq, hsame, equal_self]
    exact hg
  · have hexec := hg.sound.exec_unify_holds ha hb hl.greatest hm.greatest hsame
    cases hmerge : merge x y with
    | none =>
      rw [hmerge] at hexec
      obtain ⟨e, he⟩ := hexec
      rwa [he]
    | some z =>
      rw [hmerge] at hexec
      obtain ⟨s₁, s₂, he, hs₁, hs₂⟩ := hexec
      have hleft := Shape.left_le_merge hmerge
      have hright := Shape.right_le_merge hmerge
      have hdepth := Shape.depth_merge hmerge (hl.depth x hl.greatest.1) (hm.depth y hm.greatest.1)
      have hg₁ : Guarded vs s₁ := hg.noted hs₁ (hl.append hdepth hleft)
        fun i hi cs hv => (hmeets i hi cs hv).mono (hcs i cs hv) hl.definite hleft
      rw [he]
      exact hg₁.noted hs₂ (hm.append hdepth hright) fun i hi cs hv =>
        (hmeets' i hi cs hv).mono (hcs i cs hv) hm.definite hright

lemma Guarded.unify_var (hg : Guarded vs s) (ha : s.apply a = .var i cs) (hv : .var i cs ∈ vs)
    (hb : s.Holds b m)
    (hm : Certain m y) : Guarded vs ((unify a b).exec s).2 ∧ Guarded vs ((unify b a).exec s).2 := by
  obtain ⟨j, ds, heq, hi, -, -⟩ := hg.given _ hv
  obtain ⟨rfl, rfl⟩ := var_inj heq
  have hexec := hg.sound.exec_unify_var ha hb
  rw [hexec.1, hexec.2, hg.sound.exec_bindVar hi hb hm.greatest, and_self]
  split
  · next hmeets =>
    refine hg.rebinds (hg.sound.rebinds_assign hi (ground_alt m)) hm fun ds hds => ?_
    rwa [hg.unique i ds cs hds hv]
  · exact hg

lemma Guarded.assign_var (hg : Guarded vs s) (hi : .var i cs ∈ vs) (hj : .var j cs ∈ vs)
    (hs : (s.assign i (.var j cs)).Sound) : Guarded vs (s.assign i (.var j cs)) where
  sound := hs
  given v hv := by
    obtain ⟨k, ds, rfl, hpos, hsize, hds⟩ := hg.given v hv
    exact ⟨k, ds, rfl, hpos, hsize.trans (by simp), hds⟩
  unique := hg.unique
  bindings k b hb := by
    by_cases hk : k = i
    · subst hk
      rw [get?_assign_self] at hb
      cases hb
      exact .inr ⟨j, cs, rfl, hj, fun ds hds => hg.unique k ds cs hds hi⟩
    · rw [get?_assign_of_ne _ hk] at hb
      exact hg.bindings k b hb

lemma Guarded.unify_vars (hg : Guarded vs s) (ha : s.apply a = .var i cs)
    (hb : s.apply b = .var j ds)
    (hi : .var i cs ∈ vs) (hj : .var j ds ∈ vs) (hmerge : i = j ∨ cs = ds) :
    Guarded vs ((unify a b).exec s).2 := by
  obtain ⟨i', cs', heq, hpos, hsize, -⟩ := hg.given _ hi
  obtain ⟨rfl, rfl⟩ := var_inj heq
  rw [hg.sound.exec_unify, unifyWith, exec_get_bind]
  simp only [ha, hb, isVar_var, ↓reduceIte]
  split
  · exact hg
  · unfold bindVar
    simp only [varId?_var, members_var, isOpt_var]
    split
    · exact hg
    · next hne =>
      obtain rfl : cs = ds := hmerge.resolve_left fun hij => hne (by rw [hij])
      have hmerged : (var j (cs.foldl addCandidate cs)).optIf false = .var j cs := by
        rw [foldl_addCandidate_of_subset (Subset.refl cs)]
        rfl
      rw [hmerged, exec_bind, exec_bindTo]
      obtain ⟨i, rfl⟩ : ∃ k, i = k + 1 := ⟨i - 1, by omega⟩
      cases hocc : s.occurs (i + 1) (.var j cs) with
      | true => simpa [hocc] using hg
      | false => simpa [hocc] using hg.assign_var hi hj (hg.sound.assign hpos hocc)

lemma Guarded.fresh (hg : Guarded vs s) (hcs : ∀ c ∈ cs, ∃ y, c = typed y) :
    Guarded ((s.fresh cs).1 :: vs) (s.fresh cs).2 := by
  have hold {j : Nat} {ds : List Ty} (hj : j ≤ s.size) (hv : .var j ds ∈ (s.fresh cs).1 :: vs) :
    .var j ds ∈ vs := by
    rcases mem_cons.1 hv with heq | hv
    · have := (var_inj heq).1
      omega
    · exact hv
  refine ⟨hg.sound.grow (n := s.size + 1) (by omega), ?_, ?_, ?_⟩
  · intro v hv
    rcases mem_cons.1 hv with rfl | hv
    · exact ⟨s.size + 1, cs, rfl, by omega, le_refl _, hcs⟩
    · obtain ⟨j, ds, rfl, hpos, hsize, hds⟩ := hg.given v hv
      exact ⟨j, ds, rfl, hpos, hsize.trans (by simp), hds⟩
  · intro j ds es hds hes
    by_cases hj : j ≤ s.size
    · exact hg.unique j ds es (hold hj hds) (hold hj hes)
    · have hfresh {ds : List Ty} (hv : .var j ds ∈ (s.fresh cs).1 :: vs) : ds = cs := by
        rcases mem_cons.1 hv with heq | hv
        · exact (var_inj heq).2
        · obtain ⟨k, fs, heq, -, hsize, -⟩ := hg.given _ hv
          obtain ⟨rfl, -⟩ := var_inj heq
          exact absurd hsize hj
      rw [hfresh hds, hfresh hes]
  · intro j b hb
    have hj : j ≤ s.size := (hg.sound.numbered j (by rw [get?_fresh] at hb; simp [hb])).2
    rcases hg.bindings j b hb with ⟨l, x, rfl, hl, hmeets⟩ | ⟨k, es, rfl, hk, hes⟩
    · exact .inl ⟨l, x, rfl, hl, fun ds hv => hmeets ds (hold hj hv)⟩
    · exact .inr ⟨k, es, rfl, mem_cons_of_mem _ hk, fun ds hv => hes ds (hold hj hv)⟩

lemma Calls.guarded (h : Calls vs s) : Guarded vs s := by
  induction h with
  | empty => exact ⟨.empty, nofun, nofun, by simp⟩
  | newVar cs hcs _ ih => exact ih.fresh hcs
  | @unify vs a b s ha hb hmerge _ ih =>
    rcases ih.placed ha with ⟨i, cs, happly, -, hv⟩ | ⟨l, x, hl, hx, hmeets⟩
    · rcases ih.placed hb with ⟨j, ds, happly', -, hv'⟩ | ⟨m, y, hm, hy, -⟩
      · exact ih.unify_vars happly happly' hv hv' (hmerge i cs j ds happly happly')
      · exact (ih.unify_var happly hv hm hy).1
    · rcases ih.placed hb with ⟨j, ds, happly', -, hv'⟩ | ⟨m, y, hm, hy, hmeets'⟩
      · exact (ih.unify_var happly' hv' hl hx).2
      · exact ih.unify_holds hl hm hx hy hmeets hmeets'

/-- Constraints hold over whole runs. After any calls that ask for variables and that unify, of
which some may have failed, a variable with constraints that leads to a type leads to one that is
compatible with a constraint once alternatives are resolved. The types that are handed in say all
about themselves, and no call unifies two unbound variables with different constraints. -/
theorem constraints_kept (h : Calls vs s) (hv : .var i cs ∈ vs) (hcs : cs ≠ [])
    (happly : (s.apply (.var i cs)).kind.isVar = false) :
    ∃ u, (choose (s.apply (.var i cs))).exec s = (.ok u, s) ∧
    ∃ c ∈ cs, (Ty.fit u c).isCompatible := by
  have hg := h.guarded
  rcases hg.placed_var hv with ⟨j, ds, hvar, -⟩ | ⟨l, x, hl, hx, hmeets⟩
  · rw [hvar, isVar_var] at happly
    cases happly
  · refine ⟨typed x, ?_, ?_⟩
    · rw [hl.apply_eq]
      exact hg.sound.exec_choose_typed (List.ne_nil_of_mem hx.greatest.1) hx.depth hx.greatest.isLUB
    · rcases hmeets i (by simp) cs hv with hnil | hany
      · exact absurd hnil hcs
      · simpa using hany

def numberVar : Ty := .var 1 [typed (false, .basic .num none)]

/-- The variable for numbers has been unified with an integer and with an optional real. -/
def numbersMet : Subst :=
  ((unify numberVar (typed (true, .basic .real none))).exec
    ((unify numberVar (typed (false, .basic .int none))).exec
    (({} : Subst).fresh [typed (false, .basic .num none)]).2).2).2

lemma calls_numbersMet : Calls [numberVar] numbersMet := by
  have hmerge {s : Subst} (h : s.Sound) (y : Bool × Shape) : ∀ i cs j ds,
    s.apply numberVar = .var i cs → s.apply (typed y) = .var j ds → i = j ∨ cs = ds := by
    intro i cs j ds _ hy
    have hvar := isVar_var j ds
    rw [← hy, h.apply_ground (Shape.ground_typed y), Shape.isVar_typed] at hvar
    cases hvar
  have hnew : Calls [numberVar] (({} : Subst).fresh [typed (false, .basic .num none)]).2 := by
    refine .newVar [typed (false, .basic .num none)] (fun c hc => ?_) .empty
    exact ⟨_, mem_singleton.1 hc⟩
  have hargs (y : Bool × Shape) (hy : y.2.depth ≤ Kind.maxDepth) (hdef : y.2.Definite) :
    Arg [numberVar] (typed y) := .inr ⟨y, rfl, hy, hdef⟩
  have hint : Calls [numberVar] _ :=
    .unify (.inl (by simp)) (hargs (false, .basic .int none) (by decide) nofun)
      (hmerge hnew.guarded.sound _) hnew
  exact .unify (.inl (by simp)) (hargs (true, .basic .real none) (by decide) nofun)
    (hmerge hint.guarded.sound _) hint

theorem constraints_kept_numbers : Calls [numberVar] numbersMet ∧
    (numbersMet.apply numberVar).kind.isVar = false ∧
    ∃ u, (choose (numbersMet.apply numberVar)).exec numbersMet = (.ok u, numbersMet) ∧
      ∃ c ∈ [typed (false, .basic .num none)], (Ty.fit u c).isCompatible := by
  have happly : (numbersMet.apply numberVar).kind.isVar = false := by decide
  exact ⟨calls_numbersMet, happly, constraints_kept calls_numbersMet (List.mem_singleton_self _)
    (by simp) happly⟩

/-- After the operations the variable leads to a type that is compatible with none of its
constraints. -/
def forgets (ops : List Op) (v : Ty) : Bool :=
  let t := (after ops).apply v
  !t.kind.isVar && ((choose t).exec (after ops)).1.toOption.any fun u => v.members.all fun c =>
    !(fit u c).isCompatible

/-- Constraints are forgotten where a type does not say all about itself, and where variables with
different constraints meet: a variable for numbers stands for a text, one for lists of numbers for a
list of texts. -/
theorem constraint_forgotten :
    forgets [.newVar [.num], .unify (.var 1 [.num]) .any, .unify (.var 1 [.num]) .str]
    (.var 1 [.num]) ∧
    forgets [.newVar [.around .list .num], .unify (.var 1 [.around .list .num]) (.plain .list),
      .unify (.var 1 [.around .list .num]) (.around .list .str)] (.var 1 [.around .list .num]) ∧
    forgets [.newVar [.num], .newVar [.str], .unify (.var 1 [.num]) (.var 2 [.str]),
    .unify (.var 2 [.str]) .str] (.var 1 [.num]) := by
  decide

end Resolvent.Subst
