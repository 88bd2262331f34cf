import Resolvent.Proofs.Residual.Hint

/-!
# What resolving leaves of expressions

A residue stands for the expressions it was made from: it has no more symbols and no new
conditionals, nests no deeper, and its type variables are those of the expressions or new ones.
-/

namespace Resolvent.Residual

open Residual.Expr List Bool

variable {ρ : String → Option Val} {s s₁ s₂ : Session} {id : Nat} {ids ids' ids₁ ids₂ : List Nat}
  {e e' : Expr}
  {es es' es₁ es₂ es₁' es₂' : List Expr} {U V W : List Nat} {m n : Nat} {p : Nat × Expr}

namespace Expr

@[simp] lemma markedAll_nil : markedAll [] = [] := rfl
@[simp] lemma varsAll_nil : varsAll [] = [] := rfl
@[simp] lemma symbolsAll_nil : symbolsAll [] = [] := rfl

lemma markedAll_append (es₁ es₂ : List Expr) :
    markedAll (es₁ ++ es₂) = markedAll es₁ ++ markedAll es₂ := by
  induction es₁ with
  | nil => rfl
  | cons e es ih => simp [markedAll, ih]

lemma mem_markedAll : p ∈ markedAll es ↔ ∃ e ∈ es, p ∈ e.marked := by
  induction es with
  | nil => simp
  | cons e es ih => simp [markedAll, ih]

lemma varsAll_append (es₁ es₂ : List Expr) : varsAll (es₁ ++ es₂) = varsAll es₁ ++ varsAll es₂ := by
  simp [varsAll, markedAll_append]

lemma varsAll_subset (he : e ∈ es) : varsAll [e] ⊆ varsAll es := by
  intro k hk
  simp only [varsAll, List.mem_map, mem_markedAll, mem_singleton, exists_eq_left] at hk ⊢
  obtain ⟨p, hp, rfl⟩ := hk
  exact ⟨p, ⟨e, he, hp⟩, rfl⟩

lemma symbolsAll_append (es₁ es₂ : List Expr) :
    symbolsAll (es₁ ++ es₂) = symbolsAll es₁ ++ symbolsAll es₂ := by
  simp [symbolsAll_eq_flatMap]

lemma depths_append (es₁ es₂ : List Expr) :
    depths (es₁ ++ es₂) = max (depths es₁) (depths es₂) := by
  induction es₁ with
  | nil => simp [depths]
  | cons e es ih => simp [depths, ih]

lemma hasConditionals_eq_false_iff : hasConditionals es = false ↔
    ∀ e ∈ es, e.hasConditional = false := by
  induction es with
  | nil => simp [hasConditionals]
  | cons e es ih => simp [hasConditionals, ih]

lemma hasConditionals_append (es₁ es₂ : List Expr) :
    hasConditionals (es₁ ++ es₂) = (hasConditionals es₁ || hasConditionals es₂) := by
  induction es₁ with
  | nil => rfl
  | cons e es ih => simp [hasConditionals, ih, Bool.or_assoc]

end Expr

lemma ShowsAll.append {st : Store} (h₁ : ShowsAll st ids₁ es₁) (h₂ : ShowsAll st ids₂ es₂) :
    ShowsAll st (ids₁ ++ ids₂) (es₁ ++ es₂) :=
  showsAll_iff.2 (rel_append (showsAll_iff.1 h₁) (showsAll_iff.1 h₂))

/-! ## Parts -/

/-- The second expressions are made of the first, with new type variables above a bound. -/
structure Part (n : Nat) (es es' : List Expr) : Prop where
  depths_le : depths es' ≤ depths es
  symbols : symbolsAll es' ⊆ symbolsAll es
  conditionals : hasConditionals es' → hasConditionals es
  vars : ∀ k ∈ varsAll es', k ∈ varsAll es ∨ n < k

lemma Part.refl (n : Nat) (es : List Expr) : Part n es es :=
  ⟨le_rfl, fun _ h => h, fun h => h, fun _ h => .inl h⟩

lemma Part.nil (n : Nat) (es : List Expr) : Part n es [] :=
  ⟨Nat.zero_le _, by simp, by simp [hasConditionals], by simp⟩

lemma Part.trans (h₁ : Part m es es₁) (h₂ : Part n es₁ es₂) (hmn : m ≤ n) : Part m es es₂ where
  depths_le := h₂.depths_le.trans h₁.depths_le
  symbols _ hn := h₁.symbols (h₂.symbols hn)
  conditionals h := h₁.conditionals (h₂.conditionals h)
  vars k hk := by
    rcases h₂.vars k hk with hk | hk
    · exact h₁.vars k hk
    · exact .inr (hmn.trans_lt hk)

lemma Part.append (h₁ : Part m es₁ es₁') (h₂ : Part n es₂ es₂') (hmn : m ≤ n) :
    Part m (es₁ ++ es₂) (es₁' ++ es₂') where
  depths_le := by
    have := h₁.depths_le
    have := h₂.depths_le
    simp only [depths_append]
    omega
  symbols n hn := by
    rw [symbolsAll_append, mem_append] at hn ⊢
    exact hn.imp (fun h => h₁.symbols h) fun h => h₂.symbols h
  conditionals h := by
    rw [hasConditionals_append, or_eq_true] at h ⊢
    exact h.imp h₁.conditionals h₂.conditionals
  vars k hk := by
    simp only [varsAll_append, mem_append] at hk ⊢
    rcases hk with hk | hk
    · exact (h₁.vars k hk).imp .inl id
    · exact (h₂.vars k hk).imp .inr hmn.trans_lt

/-! ## Good elements one by one -/

lemma Good.split (h : Good ρ s (ids₁ ++ ids₂) (es₁ ++ es₂)) (hlen : ids₁.length = es₁.length) :
    Good ρ s ids₁ es₁ ∧ Good ρ s ids₂ es₂ ∧ (varsAll es₁).Disjoint (varsAll es₂) := by
  obtain ⟨hshows, hdistinct, hbounded, hready⟩ := h
  rw [varsAll_append, nodup_append'] at hdistinct
  rw [showsAll_iff] at hshows
  have h₁ := forall₂_take ids₁.length hshows
  have h₂ := forall₂_drop ids₁.length hshows
  rw [take_left, hlen, take_left] at h₁
  rw [drop_left, hlen, drop_left] at h₂
  refine ⟨⟨showsAll_iff.2 h₁, hdistinct.1, fun k hk => ?_, fun p hp => ?_⟩,
    ⟨showsAll_iff.2 h₂, hdistinct.2.1, fun k hk => ?_, fun p hp => ?_⟩, hdistinct.2.2⟩
  · exact hbounded k (by simp [varsAll_append, hk])
  · exact hready p (by simp [markedAll_append, hp])
  · exact hbounded k (by simp [varsAll_append, hk])
  · exact hready p (by simp [markedAll_append, hp])

lemma Good.uncons (h : Good ρ s (id :: ids) (e :: es)) :
    Good ρ s [id] [e] ∧ Good ρ s ids es ∧ (varsAll [e]).Disjoint (varsAll es) := by
  have h' : Good ρ s ([id] ++ ids) ([e] ++ es) := h
  exact h'.split rfl

lemma Good.append (h₁ : Good ρ s ids₁ es₁) (h₂ : Good ρ s ids₂ es₂)
    (hd : (varsAll es₁).Disjoint (varsAll es₂)) : Good ρ s (ids₁ ++ ids₂) (es₁ ++ es₂) where
  shows := h₁.shows.append h₂.shows
  distinct := by
    rw [varsAll_append, nodup_append']
    exact ⟨h₁.distinct, h₂.distinct, hd⟩
  bounded k hk := by
    rw [varsAll_append, mem_append] at hk
    exact hk.elim (h₁.bounded k) (h₂.bounded k)
  ready p hp := by
    rw [markedAll_append, mem_append] at hp
    exact hp.elim (h₁.ready p) (h₂.ready p)

lemma Good.nil (ρ : String → Option Val) (s : Session) : Good ρ s [] [] :=
  ⟨trivial, by simp, by simp, by simp⟩

/-! ## Residues -/

/-- The elements are good residues of expressions, reached by steps that bind the given type
variables only. -/
structure Residue (ρ : String → Option Val) (V : List Nat) (s : Session) (es : List Expr)
    (s' : Session) (ids : List Nat) (es' : List Expr) : Prop where
  grows : Grows V s s'
  good : Good ρ s' ids es'
  part : Part s.subst.size es es'

lemma Residue.later (h : Residue ρ V s es s₁ ids es') (hg : Grows W s₁ s₂)
    (hW : ∀ k ∈ W, k ≤ s.subst.size) (hd : ∀ k ∈ varsAll es, k ∉ W) : Good ρ s₂ ids es' := by
  refine h.good.grow hg fun k hk hkW => ?_
  rcases h.part.vars k hk with hk | hk
  · exact hd k hk hkW
  · exact absurd (hW k hkW) (by omega)

lemma Residue.append (h₁ : Residue ρ (varsAll es₁ ++ U) s es₁ s₁ ids₁ es₁')
    (h₂ : Residue ρ (varsAll es₂ ++ U) s₁ es₂ s₂ ids₂ es₂')
    (hes : ∀ k ∈ varsAll (es₁ ++ es₂), k ≤ s.subst.size ∧ k ∉ U) (hU : ∀ k ∈ U, k ≤ s.subst.size)
    (hd : (varsAll es₁).Disjoint (varsAll es₂)) :
    Residue ρ (varsAll (es₁ ++ es₂) ++ U) s (es₁ ++ es₂) s₂ (ids₁ ++ ids₂) (es₁' ++ es₂') where
  grows := by
    refine (h₁.grows.mono ?_).trans h₂.grows fun k hk => .inl ?_
    · intro k hk
      simp only [varsAll_append, mem_append] at hk ⊢
      tauto
    · simp only [varsAll_append, mem_append] at hk ⊢
      tauto
  good := by
    have hold : Good ρ s₂ ids₁ es₁' := by
      refine h₁.later h₂.grows (fun k hk => ?_) fun k hk hk' => ?_
      · rcases mem_append.1 hk with hk | hk
        · exact (hes k (by simp [varsAll_append, hk])).1
        · exact hU k hk
      · rcases mem_append.1 hk' with hk' | hk'
        · exact hd hk hk'
        · exact (hes k (by simp [varsAll_append, hk])).2 hk'
    refine hold.append h₂.good fun k hk₁ hk₂ => ?_
    -- A variable of both residues would be shared by the expressions, or new and old at the same
    -- time.
    have hle := (h₁.good.bounded k hk₁).2
    have hsize := h₁.grows.size_le
    rcases h₂.part.vars k hk₂ with hk₂ | hk₂
    · rcases h₁.part.vars k hk₁ with hk₁ | hk₁
      · exact hd hk₁ hk₂
      · have := (hes k (by simp [varsAll_append, hk₂])).1
        omega
    · omega
  part := h₁.part.append h₂.part h₁.grows.size_le

lemma Residue.append_simple (h₁ : Residue ρ (varsAll es₁) s es₁ s₁ ids₁ es₁')
    (h₂ : Residue ρ (varsAll es₂) s₁ es₂ s₂ ids₂ es₂')
    (hes : ∀ k ∈ varsAll (es₁ ++ es₂), k ≤ s.subst.size)
    (hd : (varsAll es₁).Disjoint (varsAll es₂)) :
    Residue ρ (varsAll (es₁ ++ es₂)) s (es₁ ++ es₂) s₂ (ids₁ ++ ids₂) (es₁' ++ es₂') := by
  have := append (U := []) (by simpa using h₁) (by simpa using h₂) (by simpa using hes) (by simp) hd
  simpa using this

lemma Residue.trans (h₁ : Residue ρ (varsAll es) s es s₁ ids₁ es₁)
    (h₂ : Residue ρ (varsAll es₁) s₁ es₁ s₂ ids₂ es₂) :
    Residue ρ (varsAll es) s es s₂ ids₂ es₂ where
  grows := h₁.grows.trans h₂.grows fun k hk => h₁.part.vars k hk
  good := h₂.good
  part := h₁.part.trans h₂.part h₁.grows.size_le

/-! ## Scalars and calls -/

lemma Expr.depth_pos (e : Expr) : 0 < e.depth := by cases e <;> simp [depth]

lemma Good.lit {v : Val} (h : Shows s.store id (.lit v)) : Good ρ s [id] [.lit v] :=
  ⟨⟨h, trivial⟩, by simp [varsAll, markedAll, marked], by simp [varsAll, markedAll, marked], by
    simp [markedAll, marked]⟩

lemma Residue.lit {v : Val} (hg : Grows V s s₁) (hshows : Shows s₁.store id (.lit v)) :
    Residue ρ V s [e] s₁ [id] [.lit v] where
  grows := hg
  good := .lit hshows
  part := by
    refine ⟨?_, by simp [symbolsAll, symbols], by simp [hasConditionals, hasConditional],
      by simp [varsAll, markedAll, marked]⟩
    simp only [depths, Nat.max_zero]
    exact e.depth_pos

@[simp] lemma symbolsAll_lits (vs : List Val) : symbolsAll (vs.map .lit) = [] := by
  simp [symbolsAll_eq_flatMap, symbols]

@[simp] lemma varsAll_lits (vs : List Val) : varsAll (vs.map .lit) = [] := by
  induction vs with
  | nil => rfl
  | cons v vs ih => simpa [varsAll, markedAll, marked] using ih

lemma Part.fold {vs : List Val} (h : Part n es (vs.map .lit ++ es')) (hne : vs ≠ []) (w : Val) :
    Part n es (.lit w :: es') := by
  have hdepth : depths (.lit w :: es') ≤ depths (vs.map .lit ++ es') := by
    obtain ⟨v, vs, rfl⟩ := exists_cons_of_ne_nil hne
    simp only [map_cons, cons_append, depths, depth, depths_append]
    omega
  refine ⟨hdepth.trans h.depths_le, fun m hm => h.symbols ?_, fun hc => h.conditionals ?_,
    fun k hk => h.vars k ?_⟩
  · simpa [symbolsAll_append, symbolsAll, Expr.symbols] using hm
  · simp_all [hasConditionals_append, hasConditionals, hasConditional]
  · rw [varsAll_append, varsAll_lits]
    simpa [varsAll, markedAll, marked] using hk

section

variable {op : Oper} {mark : Option Nat} {args args' : List Expr}

@[simp] lemma varsAll_call : varsAll [.call op mark args] = op.vars mark ++ varsAll args := by
  simp [varsAll, markedAll, marked, Function.comp_def]

@[simp] lemma symbolsAll_call : symbolsAll [.call op mark args] = symbolsAll args := by
  simp [symbolsAll, symbols]

@[simp] lemma hasConditionals_call : hasConditionals [.call op mark args] =
    (decide (op = .conditional) || hasConditionals args) := by
  simp [hasConditionals, hasConditional]

lemma Part.arg (he : e ∈ args) : Part n [.call op mark args] [e] where
  depths_le := by
    have := depths_le_iff.1 le_rfl e he
    simp only [depths, depth]
    omega
  symbols m hm := by
    rw [symbolsAll_call, symbolsAll_eq_flatMap, mem_flatMap]
    exact ⟨e, he, by simpa [symbolsAll] using hm⟩
  conditionals hc := by
    by_contra hne
    rw [not_eq_true, hasConditionals_call, or_eq_false_iff, hasConditionals_eq_false_iff] at hne
    simp [hasConditionals, hne.2 e he] at hc
  vars k hk := by
    rw [varsAll_call]
    exact .inl (mem_append_right _ (varsAll_subset he hk))

lemma Oper.nodup_vars (op : Oper) (mark : Option Nat) : (op.vars mark).Nodup := by
  unfold vars
  split
  · cases mark <;> simp
  · simp

/-- The type variable of a call is apart from those of the arguments, and ready if the call is a sum
with a value. -/
structure Apart (ρ : String → Option Val) (s : Session) (op : Oper) (mark : Option Nat)
    (args : List Expr) (k : Nat) : Prop where
  pos : 0 < k
  le : k ≤ s.subst.size
  not_mem : k ∉ varsAll args
  ready : (call op mark args).isSum → value? ρ (.call op mark args) ≠ none → Open s.subst k

lemma good_call_iff : Good ρ s [id] [.call op mark args] ↔
    ∃ ids, Calls s.store id op mark ids ∧ Good ρ s ids args ∧ ∀ k ∈ op.vars mark,
    Apart ρ s op mark args k := by
  constructor
  · rintro ⟨⟨⟨ids, hargs, hcalls⟩, _⟩, hdistinct, hbounded, hready⟩
    rw [varsAll_call, nodup_append'] at hdistinct
    simp only [varsAll_call, mem_append] at hbounded
    simp only [markedAll, marked, append_nil, mem_append, List.mem_map] at hready
    refine ⟨ids, hcalls, ⟨hargs, hdistinct.2.1, fun k hk => hbounded k (.inr hk),
      fun p hp => hready p (.inr hp)⟩, ?_⟩
    exact fun k hk => ⟨(hbounded k (.inl hk)).1, (hbounded k (.inl hk)).2,
      fun hk' => hdistinct.2.2 hk hk', hready (k, .call op mark args) (.inl ⟨k, hk, rfl⟩)⟩
  · rintro ⟨ids, hcalls, hargs, hvars⟩
    refine ⟨⟨⟨ids, hargs.shows, hcalls⟩, trivial⟩, ?_, fun k hk => ?_, fun p hp => ?_⟩
    · rw [varsAll_call, nodup_append']
      exact ⟨op.nodup_vars mark, hargs.distinct, fun k hk hk' => (hvars k hk).not_mem hk'⟩
    · rw [varsAll_call, mem_append] at hk
      exact hk.elim (fun hk => ⟨(hvars k hk).pos, (hvars k hk).le⟩) (hargs.bounded k)
    · simp only [markedAll, marked, append_nil, mem_append, List.mem_map] at hp
      rcases hp with ⟨k, hk, rfl⟩ | hp
      · exact (hvars k hk).ready
      · exact hargs.ready p hp

lemma Residue.call (h : Residue ρ (varsAll args ++ op.vars mark) s args s₁ ids args')
    (hvars : ∀ k ∈ op.vars mark, Apart ρ s op mark args k) (hcalls : Calls s₁.store id op mark ids)
    (hready : ∀ k ∈ op.vars mark, (Expr.call op mark args').isSum →
    value? ρ (.call op mark args') ≠ none → Open s₁.subst k) :
    Residue ρ (varsAll [.call op mark args]) s [.call op mark args] s₁ [id]
    [.call op mark args'] where
  grows := h.grows.mono fun k hk => by
    simp only [varsAll_call, mem_append] at hk ⊢
    exact hk.symm
  good := by
    refine good_call_iff.2 ⟨ids, hcalls, h.good, fun k hk => ?_⟩
    have hk' := hvars k hk
    refine ⟨hk'.pos, hk'.le.trans h.grows.size_le, fun hmem => ?_, hready k hk⟩
    rcases h.part.vars k hmem with hmem | hlt
    · exact hk'.not_mem hmem
    · exact absurd hk'.le (by omega)
  part := by
    refine ⟨?_, by simpa using h.part.symbols, fun hc => ?_, fun k hk => ?_⟩
    · have := h.part.depths_le
      simp only [depths, depth]
      omega
    · rw [hasConditionals_call, or_eq_true] at hc ⊢
      exact hc.imp_right h.part.conditionals
    · simp only [varsAll_call, mem_append] at hk ⊢
      rcases hk with hk | hk
      · exact .inl (.inl hk)
      · exact (h.part.vars k hk).imp .inr (·)

/-! ## Conditionals that are not decided -/

lemma undecided_append : Undecided s (es₁ ++ es₂) ↔ Undecided s es₁ ∧ Undecided s es₂ := by
  simp only [Undecided, markedAll_append, mem_append, or_imp, forall_and]

lemma undecided_call : Undecided s [.call op mark args] ↔
    (∀ k ∈ op.vars mark, (call op mark args).isSum = false → s.subst.get? k = none) ∧
    Undecided s args := by
  simp only [Undecided, markedAll, marked, append_nil, mem_append, List.mem_map, or_imp, forall_and,
    forall_exists_index, and_imp, forall_apply_eq_imp_iff₂]

lemma isSum_of_mem_markedAll (h : hasConditionals es = false) (hp : p ∈ markedAll es) :
    p.2.isSum := by
  have hexpr (e : Expr) (he : e.hasConditional = false) (hp : p ∈ e.marked) : p.2.isSum := by
    induction e using induct with
    | lit | sym => cases hp
    | call op mark args ih =>
      simp only [hasConditional, or_eq_false_iff, decide_eq_false_iff_not,
        hasConditionals_eq_false_iff] at he
      rw [marked, mem_append, List.mem_map, mem_markedAll] at hp
      rcases hp with ⟨k, hk, rfl⟩ | ⟨a, ha, hpa⟩
      · cases op with
        | logic | negation => cases hk
        | conditional => exact absurd rfl he.1
        | fold f =>
          cases f with
          | sum => rfl
          | truth | concat | equality | order => cases hk
      · exact ih a ha (he.2 a ha) hpa
  obtain ⟨e, he, hpe⟩ := mem_markedAll.1 hp
  exact hexpr e (hasConditionals_eq_false_iff.1 h e he) hpe

lemma undecided_of_hasConditionals_eq_false (h : hasConditionals es = false) : Undecided s es := by
  intro p hp hsum
  rw [isSum_of_mem_markedAll h hp] at hsum
  cases hsum

end

end Resolvent.Residual
