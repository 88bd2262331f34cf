import Resolvent.Proofs.Subst.Simple

/-!
# Choosing among simple types

The candidates of an alternative are folded into one type.
-/

namespace Resolvent

open List

namespace Ty

variable {t : Ty} {ts us : List Ty}

lemma flat_perm (h : ∀ t ∈ ts.flatMap candidates, t.Ground) (hperm : ts.Perm us) :
    (flat ts).Perm (flat us) := by
  have hflat : (ts.flatMap candidates).Perm (us.flatMap candidates) :=
    hperm.flatMap_right candidates
  have hus : ∀ t ∈ us.flatMap candidates, t.Ground := fun t ht => h t (hflat.mem_iff.2 ht)
  have hts := flat_spec fun t ht => (h t ht).selfFree
  have hus := flat_spec fun t ht => (hus t ht).selfFree
  rw [perm_ext_iff_of_nodup hts.2 hus.2]
  intro t
  rw [hts.1, hus.1, hflat.mem_iff]

lemma Simple.of_mem_candidates {n : Nat} {u : Ty} (ht : t.Simple true n) (hu : u ∈ t.candidates) :
    u.Simple true n := by
  unfold candidates at hu
  split at hu
  · next halt =>
    have hno {k : Kind} (hk : k.isCtx = false) (h : k.isAlt = true) : False := by
      simp [(Kind.not_marked hk).2.1] at h
    cases ht with
    | any o => exact (hno Kind.isCtx_any halt).elim
    | basic o b => exact (hno b.isCtx_kind halt).elim
    | named o b name consts => exact (hno b.isCtx_kind halt).elim
    | bare o k => exact (hno k.isCtx_kind halt).elim
    | cont o k he =>
      rw [k.around_optIf] at halt
      exact (hno k.isCtx_kind halt).elim
    | alt o _ hts =>
      obtain ⟨t, ht, rfl⟩ : ∃ t ∈ _, t = u := by simpa [params] using hu
      exact hts t ht
  · rwa [mem_singleton.1 hu]

lemma simple_candidates {n : Nat} (hts : ∀ t ∈ ts, t.Simple true n) :
    ∀ t ∈ ts.flatMap candidates, t.Simple true n := by
  intro u hu
  obtain ⟨t, ht, hu⟩ := mem_flatMap.1 hu
  exact (hts t ht).of_mem_candidates hu

end Ty

namespace Subst

open Solve Ty
open Shape (typed mergeAll)

variable {s : Subst} {t : Ty} {ts us : List Ty} {x : Bool × Shape} {optional : Bool}
  {l m : List (Bool × Shape)} {n : Nat} {f : Ty → Bool × Shape}

def orAny (optional : Bool) : Option Ty → Ty
  | some t => t.optIf optional
  | none => Ty.any.optIf optional

lemma exec_foldCandidates {X : Type} {ty : X → Ty} {join : X → X → Option X} (good : X → Prop)
    (optional : Bool) {g : Ty → X} {a : X}
    (hunify : ∀ x y, good x → good y → Gives (unify (ty x) (ty y)) s ((join x y).map ty))
    (hgood : ∀ x y z, good x → good y → join x y = some z → good z) (ha : good a)
    (hts : ∀ t ∈ ts, good (g t) ∧ (choose t).exec s = (.ok (ty (g t)), s)) :
    (foldCandidates unify choose optional ts (some (ty a))).exec s =
      (.ok (orAny optional (((ts.map g).foldlM join a).map ty)), s) := by
  induction ts generalizing a with
  | nil => rfl
  | cons t ts ih =>
    obtain ⟨ht, hchoose⟩ := hts t (by simp)
    have hgives := hunify a (g t) ha ht
    rw [foldCandidates, exec_bind, hchoose]
    dsimp only
    rw [exec_bind, exec_attempt, map_cons, foldlM_cons]
    cases hjoin : join a (g t) with
    | none =>
      rw [hjoin] at hgives
      obtain ⟨x, y, hexec⟩ := hgives
      rw [hexec]
      rfl
    | some z =>
      rw [hjoin] at hgives
      rw [show (unify (ty a) (ty (g t))).exec s = (.ok (ty z), s) from hgives]
      exact ih (hgood a (g t) z ha ht hjoin) fun u hu => hts u (by simp [hu])

/-- The type that is chosen for candidates whose shapes and flags are given. -/
def chosen (optional : Bool) : List (Bool × Shape) → Ty
  | [] => .void
  | x :: l => orAny optional ((mergeAll x l).map typed)

lemma chosen_congr (h : ∀ x, x ∈ l ↔ x ∈ m) : chosen optional l = chosen optional m := by
  cases l with
  | nil =>
    cases m with
    | nil => rfl
    | cons y m => simpa using h y
  | cons x l =>
    cases m with
    | nil => simpa using h x
    | cons y m => rw [chosen, chosen, Shape.mergeAll_congr h]

lemma any_optIf (o : Bool) : Ty.any.optIf o = typed (o, .any) := by cases o <;> rfl

lemma typed_optIf (x : Bool × Shape) (o : Bool) : (typed x).optIf o = typed (x.1 || o, x.2) :=
  x.2.optIf_ty x.1 o

lemma exists_chosen_eq (optional : Bool) (h : ∀ x ∈ l, x.2.depth ≤ n) :
    ∃ z, chosen optional l = typed z ∧ z.2.depth ≤ n := by
  cases l with
  | nil => exact ⟨(false, .basic .void none), rfl, by simp [Shape.depth]⟩
  | cons x l =>
    rw [chosen]
    cases hmerge : mergeAll x l with
    | none => exact ⟨_, any_optIf optional, by simp [Shape.depth]⟩
    | some z =>
      have hdepth := Shape.depth_mergeAll h hmerge
      exact ⟨_, typed_optIf z optional, hdepth⟩

lemma Sound.exec_foldCandidates_none (h : s.Sound)
    (hf : ∀ t ∈ ts, (f t).2.depth ≤ Kind.maxDepth ∧ (choose t).exec s = (.ok (typed (f t)), s)) :
    (foldCandidates unify choose optional ts none).exec s =
    (.ok (chosen optional (ts.map f)), s) := by
  cases ts with
  | nil => rfl
  | cons t ts =>
    obtain ⟨hdepth, ht⟩ := hf t (by simp)
    rw [foldCandidates, exec_bind, ht]
    exact exec_foldCandidates (fun x => x.2.depth ≤ Kind.maxDepth) optional (fun x y hx hy =>
      h.gives_unify hx hy)
      (fun x y z hx hy hz => Shape.depth_merge hz hx hy) hdepth fun u (hu : u ∈ ts) =>
        hf u (by simp [hu])

lemma Sound.exec_choose_alternative (h : s.Sound) {p : Bool} (hground : ∀ t ∈ ts, t.Ground) :
    (choose (detailed (Kind.alt.withOptional p) "" (ts.map fun c => ("", c)) [])).exec s =
      (foldCandidates unify choose (p || ts.any (·.isOpt)) ts none).exec s := by
  have halt : (Kind.alt.withOptional p).isAlt := rfl
  have hmembers : (detailed (Kind.alt.withOptional p) "" (ts.map fun c => ("", c)) []).members =
    ts := by
    simp [members, kind, params, halt]
  rw [h.exec_choose, chooseWith, exec_get_bind]
  simp only [h.apply_ground (Ground.alternative p hground), hmembers]
  rfl

lemma exists_exec_choose {alts : Bool} (ht : t.Simple alts n) (hn : n ≤ Kind.maxDepth) :
    ∃ x : Bool × Shape, x.2.depth ≤ n ∧ ∀ s : Subst, s.Sound →
    (choose t).exec s = (.ok (typed x), s) := by
  have hshape (o : Bool) (a : Shape) (ha : a.depth = 0) (n : Nat) : ∃ x : Bool × Shape,
    x.2.depth ≤ n ∧ ∀ s : Subst, s.Sound → (choose (a.ty o)).exec s = (.ok (typed x), s) :=
    ⟨(o, a), by simp [ha], fun s h => h.exec_choose_ty a o⟩
  induction ht with
  | any o => exact hshape o .any rfl _
  | basic o b => exact hshape o (.basic b none) rfl _
  | named o b name consts => exact hshape o (.basic b (some (name, consts))) rfl _
  | bare o k => exact hshape o (.bare k) rfl _
  | @cont n o k e he ih =>
    obtain ⟨⟨p, a⟩, hdepth, hchoose⟩ := ih (by omega)
    refine ⟨(o, .cont k p a), by simpa [Shape.depth] using hdepth, fun s h => ?_⟩
    rw [k.around_optIf]
    have hground : (detailed ((k.kind.around e.kind).withOptional o) "" [("", e)] []).Ground := by
      rw [← k.around_optIf]
      exact (Simple.cont o k he).ground
    have halt : ((k.kind.around e.kind).withOptional o).isAlt = false :=
      (Kind.not_marked k.isCtx_kind).2.1
    have helem : ((k.kind.around e.kind).withOptional o).isElemCont := k.isElemCont_kind
    rw [h.exec_choose_of_not_alt (g := fun _ => typed (p, a)) hground halt
      (by simpa [params] using hchoose s h),
      show typed (o, .cont k p a) = _ from Shape.ty_cont o k p a]
    simp only [params, map_cons, withParams, helem]
    rfl
  | @alt n o ts halts hts ih =>
    have hex : ∀ t ∈ ts, ∃ x : Bool × Shape, x.2.depth ≤ n ∧
        ∀ s : Subst, s.Sound → (choose t).exec s = (.ok (typed x), s) := fun t ht => ih t ht hn
    choose! f hf using hex
    have hdepths : ∀ x ∈ ts.map f, x.2.depth ≤ n := by simpa using fun t ht => (hf t ht).1
    obtain ⟨z, hchosen, hdepth⟩ := exists_chosen_eq (o || ts.any (·.isOpt)) hdepths
    refine ⟨z, hdepth, fun s h => ?_⟩
    rw [← hchosen, h.exec_choose_alternative fun t ht => (hts t ht).ground]
    exact h.exec_foldCandidates_none fun t ht => ⟨(hf t ht).1.trans hn, (hf t ht).2 s h⟩

/-- The type that is chosen for different candidates; a single one is no alternative. -/
def resolved (f : Ty → Bool × Shape) : List Ty → Ty
  | [t] => typed (f t)
  | ts => chosen (ts.any (·.isOpt)) (ts.map f)

lemma resolved_of_ne (h : ∀ t, ts ≠ [t]) :
    resolved f ts = chosen (ts.any (·.isOpt)) (ts.map f) := by
  unfold resolved
  split
  · next t => exact absurd rfl (h t)
  · rfl

lemma resolved_perm (h : ts.Perm us) : resolved f ts = resolved f us := by
  by_cases hsingle : ∃ t, ts = [t]
  · obtain ⟨t, rfl⟩ := hsingle
    rw [singleton_perm.1 h]
  · have hts (t : Ty) : ts ≠ [t] := fun heq => hsingle ⟨t, heq⟩
    have hus (t : Ty) : us ≠ [t] := fun heq => hts t (perm_singleton.1 (heq ▸ h))
    have hflags : ts.any (·.isOpt) = us.any (·.isOpt) := h.any_eq
    rw [resolved_of_ne hts, resolved_of_ne hus, hflags]
    exact chosen_congr fun x => (h.map f).mem_iff

lemma Sound.exec_choose_alt (h : s.Sound) (hground : ∀ t ∈ flat ts, t.Ground)
    (hf : ∀ t ∈ flat ts, (f t).2.depth ≤ Kind.maxDepth ∧
    (choose t).exec s = (.ok (typed (f t)), s)) :
    (choose (.alt ts)).exec s = (.ok (resolved f (flat ts)), s) := by
  rw [alt_eq]
  split
  · next t hsingle =>
    rw [hsingle]
    exact (hf t (by simp [hsingle])).2
  · next hne =>
    rw [resolved_of_ne hne, ← h.exec_foldCandidates_none hf]
    exact h.exec_choose_alternative (p := false) hground

/-- The order of the candidates does not matter: of types without objects, specs, variables and
references, of which at most `Kind.maxDepth` containers stand one inside the other, the same one is
chosen in every order. -/
theorem choose_alt_perm (hts : ∀ t ∈ ts, t.Simple true Kind.maxDepth) (hperm : ts.Perm us) :
    ∃ u, (choose (.alt ts)).exec {} = (.ok u, {}) ∧ (choose (.alt us)).exec {} = (.ok u, {}) := by
  have hsimple := simple_candidates hts
  have hground : ∀ t ∈ ts.flatMap candidates, t.Ground := fun t ht => (hsimple t ht).ground
  have hmem := (flat_spec fun t ht => (hground t ht).selfFree).1
  have hflat : (flat ts).Perm (flat us) := flat_perm hground hperm
  choose! f hf using fun t (ht : t ∈ ts.flatMap candidates) =>
    exists_exec_choose (hsimple t ht) le_rfl
  have hchoose : ∀ t ∈ flat ts, (f t).2.depth ≤ Kind.maxDepth ∧
    (choose t).exec {} = (.ok (typed (f t)), {}) := by
    intro t ht
    have hf := hf t ((hmem t).1 ht)
    exact ⟨hf.1, hf.2 {} .empty⟩
  refine ⟨resolved f (flat ts),
    Sound.empty.exec_choose_alt (fun t ht => hground t ((hmem t).1 ht)) hchoose, ?_⟩
  rw [resolved_perm hflat]
  refine Sound.empty.exec_choose_alt (fun t ht => ?_) fun t ht => hchoose t (hflat.mem_iff.2 ht)
  exact hground t ((hmem t).1 (hflat.mem_iff.2 ht))

/-- An optional integer, a list of texts or characters and an indexer of times, which have only the
elements in common. -/
def mixed : List Ty :=
  [.plain (Basic.int.kind.withOptional true),
    (around Access.list.kind (.detailed (Kind.alt.withOptional false) ""
      ([.plain (Basic.str.kind.withOptional false), .plain (Basic.raw.kind.withOptional true)].map
      fun t => ("", t)) [])).optIf false,
    (around Access.idxr.kind (.plain (Basic.time.kind.withOptional false))).optIf true]

theorem choose_alt_perm_mixed : (∀ t ∈ mixed, t.Simple true Kind.maxDepth) ∧
    mixed.Perm mixed.reverse ∧
    ∃ u, (choose (.alt mixed)).exec {} = (.ok u, {}) ∧ (choose (.alt mixed.reverse)).exec {} =
    (.ok u, {}) := by
  have hsimple : ∀ t ∈ mixed, t.Simple true Kind.maxDepth := by
    have htexts : ∀ t ∈ [Ty.plain (Basic.str.kind.withOptional false),
      Ty.plain (Basic.raw.kind.withOptional true)], t.Simple true 6 := by
      simp [Simple.basic]
    simp only [mixed, List.mem_cons, List.not_mem_nil, or_false, forall_eq_or_imp, forall_eq]
    exact ⟨.basic true .int, .cont false .list (.alt false rfl htexts),
      .cont true .idxr (.basic false .time)⟩
  exact ⟨hsimple, (List.reverse_perm mixed).symm,
    choose_alt_perm hsimple (List.reverse_perm mixed).symm⟩

/-- The depth of a container does not count what stands in an alternative below it, and with such
containers the order matters: two that are too deep together are refused, unless a candidate that
has nothing in common with them comes first. -/
theorem choose_alt_order : let listed (t : Ty) : Ty := .list (.alt [Ty.list^[7] t, .any])
    (listed .int).kind.depth = 1 ∧ (listed .real).kind.depth = 1 ∧
    ((choose (.alt [listed .int, listed .real, .int])).exec {}).1.toOption.isNone ∧
    ((choose (.alt [.int, listed .int, listed .real])).exec {}).1.toOption.any (·.isAny) := by
  decide +kernel

end Subst

end Resolvent
