import Resolvent.Proofs.Subst.Step

/-!
# Searches end

Unifying and choosing call each other on types that are not parts of the given ones: applying a
substitution makes types larger, candidates are joined into new types, and variables are bound again
on the way.
-/

namespace Resolvent.Subst

open Solve Filter List

variable {V W : Finset Nat} {s s₁ s₂ : Subst} {a b t : Ty} {d n : Nat} {r r' fewer : Searches}
  {ts : List Ty} {α : Type}

/-- The plain recursion to a depth, beyond which `stop` takes over. -/
def Searches.deep (stop : Searches) : (depth : Nat) → Searches
  | 0 => stop
  | depth + 1 => (deep stop depth).step

def Searches.beside (r : Searches) : Option (Searches × Nat) → Searches
  | .none => r
  | .some (stop, n) => deep stop n

def along : Filter (Option (Searches × Nat)) := pure none ⊔ map some (comap Prod.snd atTop)

lemma eventually_along {p : Option (Searches × Nat) → Prop} :
    (∀ᶠ i in along, p i) ↔ p none ∧ ∃ n, ∀ m ≥ n, ∀ stop, p (some (stop, m)) := by
  simp only [along, eventually_sup, eventually_pure, eventually_map, eventually_comap,
    eventually_atTop]
  refine and_congr_right fun _ => exists_congr fun n => forall₂_congr fun m _ => ?_
  exact ⟨fun h stop => h (stop, m) rfl, fun h i hi => by subst hi; exact h i.1⟩

lemma settles_along_iff {m : Option (Searches × Nat) → Solve α}
    {Q : Except TyError α → Subst → Prop} :
    Settles along m s Q ↔ Q ((m none).exec s).1 ((m none).exec s).2 ∧
      ∃ n, ∀ k ≥ n, ∀ stop, (m (some (stop, k))).exec s = (m none).exec s := by
  constructor
  · rintro ⟨r, s', hQ, hev⟩
    obtain ⟨hnone, n, hn⟩ := eventually_along.1 hev
    exact ⟨by rwa [hnone], n, fun k hk stop => by rw [hnone, hn k hk stop]⟩
  · rintro ⟨hQ, n, hn⟩
    exact ⟨_, _, hQ, eventually_along.2 ⟨rfl, n, hn⟩⟩

lemma settles_step {f : Searches → Solve α} {Q : Except TyError α → Subst → Prop}
    (h : Settles along (fun i => f (r.beside i).step) s Q) :
    Settles along (fun i => f (r.step.beside i)) s Q := by
  obtain ⟨hQ, n, hn⟩ := settles_along_iff.1 h
  refine settles_along_iff.2 ⟨hQ, n + 1, fun k hk stop => ?_⟩
  obtain ⟨k, rfl⟩ : ∃ j, k = j + 1 := ⟨k - 1, by omega⟩
  exact hn k (by omega) stop

lemma settles_beside_congr {f : Searches → Solve α} {Q : Except TyError α → Subst → Prop}
    (h : Settles along (fun i => f (r.beside i)) s Q) (heq : (f r').exec s = (f r).exec s) :
    Settles along (fun i => f (r'.beside i)) s Q := by
  refine h.congr (eventually_along.2 ⟨heq, 0, fun _ _ _ => rfl⟩)

/-! ## Searches within a set of variables -/

/-- The searches agree with the plain recursions on all types over the set and keep within it. -/
structure Behaves (r : Searches) (V : Finset Nat) (s : Subst) : Prop where
  unify : ∀ a b, a.Over V → b.Over V → Settles along (fun i => (r.beside i).unify a b) s
    (Post V s (Low V s (max (s.apply a).height (s.apply b).height)))
  choose : ∀ t, t.Over V →
  Settles along (fun i => (r.beside i).choose t) s (Post V s (Low V s (chosenHeight (s.apply t))))

lemma Behaves.handles (h : ∀ s₁, Grown V s s₁ → Behaves r V s₁) (D : Nat) :
    Handles along r.beside V s D where
  unify s₁ a b hg ha hb _ := (h s₁ hg).unify a b ha hb
  choose s₁ t hg ht _ := (h s₁ hg).choose t ht

/-- Nested searches are deep enough for types whose heights the fuel covers, if the others behave
once fewer variables are unbound. -/
lemma nested_settles (hs : Within V s)
    (hfewer : ∀ s₁, Within V s₁ → (unboundIn V s₁).card < (unboundIn V s).card → Behaves fewer V s₁)
    (fuel : Nat) : ∀ s₁, Grown V s s₁ → Calm V s s₁ →
    (∀ a b, a.Over V → b.Over V → 2 * max (s₁.apply a).height (s₁.apply b).height + 1 < fuel →
        Settles along (fun i => ((Searches.nested fewer s.bindings.length fuel).beside i).unify a b)
        s₁ (Post V s₁ (Low V s₁ (max (s₁.apply a).height (s₁.apply b).height)))) ∧
      (∀ t, t.Over V → 2 * (s₁.apply t).height < fuel →
        Settles along (fun i => ((Searches.nested fewer s.bindings.length fuel).beside i).choose t)
        s₁ (Post V s₁ (Low V s₁ (chosenHeight (s₁.apply t))))) := by
  induction fuel with
  | zero => exact fun s₁ _ _ =>
    ⟨fun a b _ _ h => absurd h (by simp), fun t _ h => absurd h (by simp)⟩
  | succ fuel ih =>
    intro s₁ hg₁ hc₁
    have handles (D : Nat) (hD : D ≤ fuel) :
        Handles along (Searches.whileBound s.bindings.length (.nested fewer s.bindings.length fuel)
        fewer).beside V s₁ D := by
      -- The guard of `whileBound` tells a calm stretch from one in which a variable was bound.
      have calm {s₂ : Subst} (hg₂ : Grown V s₁ s₂) : Calm V s₁ s₂ ↔
        s₂.bindings.length = s.bindings.length := by
        rw [calm_iff hg₁.within.sound hg₂, (calm_iff hs.sound hg₁).1 hc₁]
      have few {s₂ : Subst} (hg₂ : Grown V s₁ s₂) (hc₂ : ¬ Calm V s₁ s₂) : Behaves fewer V s₂ := by
        refine hfewer s₂ hg₂.within ?_
        rw [← hc₁.unboundIn_eq hg₁]
        exact card_unboundIn_lt hc₂ hg₂
      constructor
      · intro s₂ a b hg₂ ha hb hlt
        by_cases hc₂ : Calm V s₁ s₂
        · have := (ih s₂ (hg₁.trans hg₂) (hc₁.trans hc₂)).1 a b ha hb ((hlt hc₂).trans_le hD)
          refine settles_beside_congr (f := fun r => r.unify a b) this ?_
          simp only [Searches.whileBound, exec_get_bind, (calm hg₂).1 hc₂, ↓reduceIte]
        · refine settles_beside_congr (f := fun r => r.unify a b) ((few hg₂ hc₂).unify a b ha hb) ?_
          simp only [Searches.whileBound, exec_get_bind, mt (calm hg₂).2 hc₂, ↓reduceIte]
      · intro s₂ t hg₂ ht hlt
        by_cases hc₂ : Calm V s₁ s₂
        · have := (ih s₂ (hg₁.trans hg₂) (hc₁.trans hc₂)).2 t ht ((hlt hc₂).trans_le hD)
          refine settles_beside_congr (f := fun r => r.choose t) this ?_
          simp only [Searches.whileBound, exec_get_bind, (calm hg₂).1 hc₂, ↓reduceIte]
        · refine settles_beside_congr (f := fun r => r.choose t) ((few hg₂ hc₂).choose t ht) ?_
          simp only [Searches.whileBound, exec_get_bind, mt (calm hg₂).2 hc₂, ↓reduceIte]
    constructor
    · intro a b ha hb hlt
      exact settles_step (f := fun r => r.unify a b)
        ((handles _ (by omega)).unifyWith hg₁.within ha hb)
    · intro t ht hlt
      exact settles_step (f := fun r => r.choose t)
        ((handles _ (by omega)).chooseWith hg₁.within ht)

lemma exec_binding_unify (vars : Nat) (a b : Ty) (s : Subst) :
    ((Searches.binding (vars + 1)).unify a b).exec s =
      ((Searches.nested (.binding vars) s.bindings.length
        (2 * max (s.apply a).height (s.apply b).height + 2)).unify a b).exec s := by
  rw [Searches.binding, exec_get_bind]

lemma exec_binding_choose (vars : Nat) (t : Ty) (s : Subst) :
    ((Searches.binding (vars + 1)).choose t).exec s =
      ((Searches.nested (.binding vars) s.bindings.length (2 * (s.apply t).height + 1)).choose
      t).exec s := by
  rw [Searches.binding, exec_get_bind]

lemma binding_behaves (vars : Nat) : ∀ s, Within V s → (unboundIn V s).card < vars →
    Behaves (Searches.binding vars) V s := by
  induction vars with
  | zero => exact fun s _ h => absurd h (by simp)
  | succ vars ih =>
    intro s hs hlt
    have nested (fuel : Nat) :=
      nested_settles hs (fun s₁ hs₁ hlt₁ => ih s₁ hs₁ (by omega)) fuel s (.refl hs) (Calm.refl V s)
    constructor
    · intro a b ha hb
      have := (nested (2 * max (s.apply a).height (s.apply b).height + 2)).1 a b ha hb (by omega)
      exact settles_beside_congr (f := fun r => r.unify a b) this (exec_binding_unify vars a b s)
    · intro t ht
      have := (nested (2 * (s.apply t).height + 1)).2 t ht (by omega)
      exact settles_beside_congr (f := fun r => r.choose t) this (exec_binding_choose vars t s)

/-! ## The variables that a search can meet -/

def support (s : Subst) (ts : List Ty) : Finset Nat :=
  (ts.flatMap Ty.outerVars ++ s.bindings.flatMap fun p => p.2.outerVars).toFinset

lemma over_support (h : t ∈ ts) : t.Over (s.support ts) := by
  intro i hi
  simp only [support, List.mem_toFinset, mem_append, mem_flatMap]
  exact .inl ⟨t, h, hi⟩

lemma get?_over_support {i : Nat} (h : s.get? i = some b) : b.Over (s.support ts) := by
  obtain ⟨p, hp, rfl⟩ := Option.map_eq_some_iff.1 h
  intro j hj
  simp only [support, List.mem_toFinset, mem_append, mem_flatMap]
  exact .inr ⟨p, mem_of_find?_eq_some hp, hj⟩

lemma Sound.within_support (h : s.Sound) (ts : List Ty) : Within (s.support ts) s where
  sound := h
  closed _ _ _ hb := get?_over_support hb

lemma card_support_le (s : Subst) (ts : List Ty) :
    (s.support ts).card ≤ ts.foldr (fun t n => t.size + n) s.weight := by
  have htypes : (ts.flatMap Ty.outerVars).length + s.weight ≤
    ts.foldr (fun t n => t.size + n) s.weight :=
    Ty.length_flatMap_outerVars_le (f := id) s.weight fun t _ => t.length_outerVars_le
  have hbindings : (s.bindings.flatMap fun p => p.2.outerVars).length + s.size ≤ s.weight :=
    Ty.length_flatMap_outerVars_le (f := Prod.snd) s.size fun p _ => p.2.length_outerVars_le
  have := toFinset_card_le (ts.flatMap Ty.outerVars ++ s.bindings.flatMap fun p => p.2.outerVars)
  rw [length_append] at this
  rw [support]
  omega

lemma Within.inter_support (h : Within V s) (ts : List Ty) : Within (V ∩ s.support ts) s where
  sound := h.sound
  closed i hi b hb j hj :=
  Finset.mem_inter.2 ⟨h.closed i (Finset.mem_inter.1 hi).1 b hb j hj, get?_over_support hb j hj⟩

lemma card_unboundIn_inter_lt (V : Finset Nat)
    (hn : ts.foldr (fun t n => t.size + n) s.weight < n) :
    (unboundIn (V ∩ s.support ts) s).card < n := by
  have hfilter : (unboundIn (V ∩ s.support ts) s).card ≤ (V ∩ s.support ts).card :=
    Finset.card_filter_le _ _
  have hinter : (V ∩ s.support ts).card ≤ (s.support ts).card :=
    Finset.card_le_card Finset.inter_subset_right
  have := card_support_le s ts
  omega

lemma Low.of_subset (h : Low W s d t s₁) (hWV : W ⊆ V) : Low V s d t s₁ where
  vars_mem i hi := hWV (h.vars_mem i hi)
  unbound hc := h.unbound fun i hi => hc i (hWV hi)
  height_le hc := h.height_le fun i hi => hc i (hWV hi)

lemma Post.of_subset {x : Except TyError Ty} (h : Post W s (Low W s d) x s₁) (hV : Within V s)
    (hWV : W ⊆ V) : Post V s (Low V s d) x s₁ := by
  cases x with
  | ok t => exact ⟨h.1.of_subset hV hWV, h.2.of_subset hWV⟩
  | error e => exact ⟨h.1.of_subset hV hWV, h.2⟩

lemma exec_unify_eq_binding (a b : Ty) (s : Subst) : (unify a b).exec s =
    ((Searches.binding (s.weight + a.size + b.size + 1)).unify a b).exec s := by
  rw [unify, exec_get_bind]

lemma exec_choose_eq_binding (t : Ty) (s : Subst) :
    (choose t).exec s = ((Searches.binding (s.weight + t.size + 1)).choose t).exec s := by
  rw [choose, exec_get_bind]

lemma behaves (h : Within V s) : Behaves ⟨unify, choose⟩ V s where
  unify a b ha hb := by
    have hover {t : Ty} (ht : t.Over V) (hmem : t ∈ [a, b]) : t.Over (V ∩ s.support [a, b]) :=
      fun i hi => Finset.mem_inter.2 ⟨ht i hi, over_support hmem i hi⟩
    have hcard : (unboundIn (V ∩ s.support [a, b]) s).card < s.weight + a.size + b.size + 1 :=
      card_unboundIn_inter_lt V (by simp; omega)
    have hW := (binding_behaves _ s (h.inter_support [a, b]) hcard).unify a b (hover ha (by simp))
      (hover hb (by simp))
    have hV := hW.mono fun x s₁ hx => hx.of_subset h Finset.inter_subset_left
    exact settles_beside_congr (f := fun r => r.unify a b) hV (exec_unify_eq_binding a b s)
  choose t ht := by
    have hover : t.Over (V ∩ s.support [t]) :=
      fun i hi => Finset.mem_inter.2 ⟨ht i hi, over_support (by simp) i hi⟩
    have hcard : (unboundIn (V ∩ s.support [t]) s).card < s.weight + t.size + 1 :=
      card_unboundIn_inter_lt V (by simp; omega)
    have hW := (binding_behaves _ s (h.inter_support [t]) hcard).choose t hover
    have hV := hW.mono fun x s₁ hx => hx.of_subset h Finset.inter_subset_left
    exact settles_beside_congr (f := fun r => r.choose t) hV (exec_choose_eq_binding t s)

lemma handles (V : Finset Nat) (s : Subst) (D : Nat) :
    Handles along (Searches.beside ⟨unify, choose⟩) V s D :=
  Behaves.handles (fun _ hg => behaves hg.within) D

/-! ## The searches of the library -/

lemma Within.post_unify (h : Within V s) (ha : a.Over V) (hb : b.Over V) :
    Post V s (Low V s (max (s.apply a).height (s.apply b).height)) ((unify a b).exec s).1
    ((unify a b).exec s).2 :=
  (settles_along_iff.1 ((behaves h).unify a b ha hb)).1

lemma Within.post_choose (h : Within V s) (ht : t.Over V) :
    Post V s (Low V s (chosenHeight (s.apply t))) ((choose t).exec s).1 ((choose t).exec s).2 :=
  (settles_along_iff.1 ((behaves h).choose t ht)).1

lemma settles_realizeWith (h : Within V s) (ht : t.Over V) :
    Settles along (fun i => realizeWith (Searches.beside ⟨unify, choose⟩ i) t) s
    (Post V s fun u _ => u.Over V) := by
  refine .get_bind (((behaves h).choose _ (h.apply ht)).bind (fun u s₁ hu => .get_bind ?_)
    fun e s₁ he => he)
  refine .ite (fun _ => .pure ⟨hu.1, hu.1.within.apply hu.2.vars_mem⟩) fun _ =>
    .throw ⟨hu.1, by simp⟩

lemma Within.post_realize (h : Within V s) (ht : t.Over V) :
    Post V s (fun u _ => u.Over V) ((realize t).exec s).1 ((realize t).exec s).2 :=
  (settles_along_iff.1 (settles_realizeWith h ht)).1

lemma Sound.exec_unify (h : s.Sound) (a b : Ty) :
    (unify a b).exec s = (unifyWith ⟨unify, choose⟩ a b).exec s := by
  have hs := h.within_support [a, b]
  have ha : a.Over (s.support [a, b]) := over_support (by simp)
  have hb : b.Over (s.support [a, b]) := over_support (by simp)
  have hstep := Handles.unifyWith hs ha hb (handles _ s _)
  obtain ⟨_, m, hm⟩ := settles_along_iff.1 hstep
  obtain ⟨_, n, hn⟩ := settles_along_iff.1 ((behaves hs).unify a b ha hb)
  calc (unify a b).exec s = ((Searches.deep .none (m + n + 1)).unify a b).exec s :=
    (hn (m + n + 1) (by omega) .none).symm
    _ = (unifyWith ⟨unify, choose⟩ a b).exec s := hm (m + n) (by omega) .none

lemma Sound.exec_choose (h : s.Sound) (t : Ty) :
    (choose t).exec s = (chooseWith ⟨unify, choose⟩ t).exec s := by
  have hs := h.within_support [t]
  have ht : t.Over (s.support [t]) := over_support (by simp)
  have hstep := Handles.chooseWith hs ht (handles _ s _)
  obtain ⟨_, m, hm⟩ := settles_along_iff.1 hstep
  obtain ⟨_, n, hn⟩ := settles_along_iff.1 ((behaves hs).choose t ht)
  calc (choose t).exec s = ((Searches.deep .none (m + n + 1)).choose t).exec s :=
    (hn (m + n + 1) (by omega) .none).symm
    _ = (chooseWith ⟨unify, choose⟩ t).exec s := hm (m + n) (by omega) .none

end Resolvent.Subst
