import Resolvent.Proofs.Subst.History
import Resolvent.Proofs.Ty.Renaming
import Resolvent.Proofs.Ty.Whole
import Mathlib.Order.Monotone.Basic

/-!
# Searches under other numbers

Two substitutions that bind the same variables to the same types, up to the numbers of the
variables, answer alike: what a search finds in the one, it finds in the other with the variables
renamed, and where it fails in the one, it fails for the same reason in the other.
-/

namespace Resolvent

open List

/-- The error without the types that it is about. -/
def TyError.bare : TyError → TyError
  | invalid _ reason => invalid "" reason
  | notAVariable _ => notAVariable .void
  | recursive _ _ => recursive .void .void
  | noCommonType _ _ => noCommonType .void .void
  | unresolvedReference _ => unresolvedReference .void
  | constraint _ _ => constraint .void .void
  | ambiguous _ => ambiguous .void
  | exhausted => exhausted

/-- The number of a variable where `k` other variables come first. Zero is no variable's number. -/
def shift (k i : Nat) : Nat := if i = 0 then 0 else i + k

lemma shift_strictMono (k : Nat) : StrictMono (shift k) := by
  intro i j hij
  unfold shift
  split_ifs <;> omega

lemma shift_injective (k : Nat) : Function.Injective (shift k) := (shift_strictMono k).injective

@[simp] lemma shift_zero (k : Nat) : shift k 0 = 0 := rfl

@[simp] lemma shift_succ (k i : Nat) : shift k (i + 1) = i + 1 + k := rfl

/-! ## Sorted numbers -/

section

variable {f : Nat → Nat} (hf : StrictMono f)
include hf

lemma insertId_map (n : Nat) (ids : List Nat) :
    insertId (f n) (ids.map f) = (insertId n ids).map f := by
  induction ids with
  | nil => rfl
  | cons m ids ih =>
    simp only [map_cons, insertId, hf.lt_iff_lt, hf.injective.eq_iff, ih]
    split_ifs <;> rfl

lemma sortIds_map (ids : List Nat) : sortIds (ids.map f) = (sortIds ids).map f := by
  induction ids with
  | nil => rfl
  | cons n ids ih =>
    simp only [map_cons, sortIds, foldr_cons] at ih ⊢
    rw [ih, insertId_map hf]

end

namespace Ty

variable {t : Ty} {σ τ : Nat → Option Nat} {f g : Nat → Nat}

lemma withParams_rename_of_not_isVar {ps : List Param} (h : t.kind.isVar = false)
    (hps : ps.length = t.params.length) :
    (t.rename f).withParams ps = (t.rename g).withParams ps := by
  cases t with
  | plain k => simp_all [rename, kind, Kind.rename_of_not_isVar]
  | detailed k name qs cs =>
    cases qs <;> cases ps <;> simp_all [rename, renameParams, withParams, kind, params,
      Kind.rename_of_not_isVar]

lemma renumber_rename (h : ∀ i ∈ t.vars, ∃ j, σ i = some j ∧ τ (g i) = some (f j)) :
    (t.rename g).renumber τ = (t.renumber σ).rename f := by
  induction t using induct with
  | node t ih =>
    have hparams (h : ∀ i ∈ t.params.flatMap fun p => p.2.vars, ∃ j, σ i = some j ∧
      τ (g i) = some (f j)) (p : Param)
        (hp : p ∈ t.params) : (p.2.rename g).renumber τ = (p.2.renumber σ).rename f :=
      ih p hp fun i hi => h i (mem_flatMap.2 ⟨p, hp, hi⟩)
    cases hv : t.kind.isVar with
    | false =>
      rw [vars, gather_of_not_isVar hv] at h
      have hmap := map_congr_left fun p hp => congrArg (Prod.mk p.1) (hparams h p hp)
      rw [renumber_of_not_isVar hv, renumber_of_not_isVar (by simpa using hv), withParams_rename,
        params_rename, List.map_map, List.map_map]
      exact (congrArg _ hmap).trans (withParams_rename_of_not_isVar hv (by simp))
    | true =>
      rw [vars, gather_of_isVar hv] at h
      obtain ⟨j, hσ, hτ⟩ := h t.kind.slot (by simp)
      have hτ' : τ (t.rename g).kind.slot = some (f j) := by
        rw [kind_rename, Kind.rename_of_isVar hv]; exact hτ
      rw [renumber_of_isVar hv hσ, renumber_of_isVar (by simpa using hv) hτ', isOpt_rename,
        ← optIf_rename, var_rename]
      have hmap := map_congr_left (hparams fun i hi => h i (mem_append_right _ hi))
      simp only [params_rename, List.map_map, Function.comp_def, hmap]

end Ty

/-! ## Searches in parallel -/

namespace Subst

/-- The second substitution binds the variables of the first to the same types, under numbers that
come after `k` others. -/
structure Renamed (k : Nat) (s s' : Subst) : Prop where
  left : s.Sound
  right : s'.Sound
  size_eq : s'.size = s.size + k
  get?_eq : ∀ i, s'.get? (shift k i) = (s.get? i).map (Ty.rename (shift k))

namespace Renamed

variable {k : Nat} {s s' : Subst} (h : Renamed k s s')
include h

lemma apply (t : Ty) : s'.apply (t.rename (shift k)) = (s.apply t).rename (shift k) := by
  induction t using h.left.induct with
  | step t ih =>
    rw [h.left.apply_eq, h.right.apply_eq]
    refine Ty.substVars_rename fun i hi => ?_
    rw [h.get?_eq]
    cases hb : s.get? i with
    | none => rfl
    | some b => simp [ih i (outerVars_subset_links s t hi) b hb]

lemma reach (t : Ty) : s'.reach (t.rename (shift k)) = (s.reach t).map (shift k) := by
  induction t using h.left.induct with
  | step t ih =>
    rw [h.left.reach_eq, h.right.reach_eq]
    refine Ty.gather_rename fun i hi => ?_
    simp only [snd_visit] at hi
    cases hb : s.get? i with
    | none => simp [visit, h.get?_eq, hb]
    | some b => simp [visit, h.get?_eq, hb, ih i hi b hb]

lemma occurs (i : Nat) (t : Ty) : s'.occurs (shift k i) (t.rename (shift k)) = s.occurs i t := by
  rw [Subst.occurs, Subst.occurs, h.reach, Bool.eq_iff_iff, contains_iff_mem, contains_iff_mem,
    List.mem_map_of_injective (shift_injective k)]

lemma isEmpty_free (t : Ty) : (s'.free (t.rename (shift k))).isEmpty = (s.free t).isEmpty := by
  have hfilter : ((s.reach t).map (shift k)).filter (fun i => (s'.get? i).isNone) =
      ((s.reach t).filter fun i => (s.get? i).isNone).map (shift k) := by
    simp [List.filter_map, Function.comp_def, h.get?_eq]
  rw [free, free, h.reach, hfilter, sortIds_map (shift_strictMono k), isEmpty_map]

lemma isBound (t : Ty) : s'.isBound (t.rename (shift k)) = s.isBound t := by
  rw [Subst.isBound, Subst.isBound, Ty.varId?_rename]
  cases t.varId? <;> simp [h.get?_eq]

lemma assign {i : Nat} {t : Ty} (hi : 0 < i) (hocc : s.occurs i t = false) :
    Renamed k (s.assign i t) (s'.assign (shift k i) (t.rename (shift k))) where
  left := h.left.assign hi hocc
  right := h.right.assign (by unfold shift; split_ifs <;> omega) (by rw [h.occurs, hocc])
  size_eq := by
    rw [size_assign, size_assign, h.size_eq]
    unfold shift
    split_ifs <;> omega
  get?_eq j := by
    by_cases hj : j = i
    · subst hj
      simp
    · rw [get?_assign_of_ne _ hj, get?_assign_of_ne _ ((shift_injective k).ne hj), h.get?_eq]

lemma grow (n : Nat) : Renamed k { s with size := s.size + n } { s' with size := s'.size + n } where
  left := h.left.grow (by omega)
  right := h.right.grow (by omega)
  size_eq := by
    have := h.size_eq
    dsimp only
    omega
  get?_eq := h.get?_eq

lemma instantiateGeneric {g : Nat → Nat} (hg : StrictMono g) (t : Ty) :
    (s'.instantiateGeneric (t.rename g)).1 = (s.instantiateGeneric t).1.rename (shift k) ∧
      Renamed k (s.instantiateGeneric t).2 (s'.instantiateGeneric (t.rename g)).2 := by
  have hids : sortIds (t.rename g).vars = (sortIds t.vars).map g := by
    rw [Ty.vars_rename, sortIds_map hg]
  have hidx (ids : List Nat) (i : Nat) : (ids.map g).idxOf? (g i) = ids.idxOf? i := by
    induction ids with
    | nil => rfl
    | cons n ids ih => simp [idxOf?_cons, hg.injective.eq_iff, ih]
  simp only [Subst.instantiateGeneric, renew, hids, length_map]
  refine ⟨Ty.renumber_rename fun i hi => ?_, h.grow _⟩
  obtain ⟨j, hj⟩ : ∃ j, (sortIds t.vars).idxOf? i = some j := by
    rw [← Option.isSome_iff_exists, Option.isSome_iff_ne_none, ne_eq, idxOf?_eq_none_iff, not_not]
    exact mem_sortIds.2 hi
  refine ⟨s.size + 1 + j, by rw [hj]; rfl, ?_⟩
  have hshift : shift k (s.size + 1 + j) = s'.size + 1 + j := by
    have := h.size_eq
    unfold shift
    split_ifs <;> omega
  rw [hidx, hj, hshift]
  rfl

end Renamed

end Subst

namespace Solve

open Subst

variable {α β α' β' : Type} {k : Nat} {s s' : Subst}

/-- Results of which `P` holds, or errors that say the same about other types. -/
def Matches (P : α → α' → Prop) : Except TyError α → Except TyError α' → Prop
  | .ok a, .ok a' => P a a'
  | .error e, .error e' => e'.bare = e.bare
  | _, _ => False

/-- The searches end alike from substitutions that are alike, and leave such substitutions. -/
def Parallel (k : Nat) (m : Solve α) (m' : Solve α') (s s' : Subst) (P : α → α' → Prop) : Prop :=
  Renamed k (m.exec s).2 (m'.exec s').2 ∧ Matches P (m.exec s).1 (m'.exec s').1

namespace Parallel

variable {P : α → α' → Prop} {Q : β → β' → Prop} {f' : α' → Solve β'} {m' : Solve α'} {m : Solve α}

lemma pure {a : α} {a' : α'} (h : Renamed k s s') (ha : P a a') :
    Parallel k (Pure.pure a) (Pure.pure a') s s' P := ⟨h, ha⟩

lemma throw {e e' : TyError} (h : Renamed k s s') (he : e'.bare = e.bare) :
    Parallel k (MonadExcept.throw e : Solve α) (MonadExcept.throw e' : Solve α') s s' P :=
  ⟨h, he⟩

lemma bind {f : α → Solve β} (h : Parallel k m m' s s' P)
    (hf : ∀ a a' t t', Renamed k t t' → P a a' → Parallel k (f a) (f' a') t t' Q) :
    Parallel k (m >>= f) (m' >>= f') s s' Q := by
  obtain ⟨hs, hr⟩ := h
  unfold Parallel
  rw [exec_bind, exec_bind]
  rcases hm : m.exec s with ⟨e | a, t⟩ <;> rcases hm' : m'.exec s' with ⟨e' | a', t'⟩ <;>
    rw [hm, hm'] at hr hs
  · exact ⟨hs, hr⟩
  · exact hr.elim
  · exact hr.elim
  · exact hf a a' t t' hs hr

lemma throw_bind {e e' : TyError} {f : α → Solve β} (h : Renamed k s s') (he : e'.bare = e.bare) :
    Parallel k ((MonadExcept.throw e : Solve α) >>= f) ((MonadExcept.throw e' : Solve α') >>=
    f') s s' Q :=
  ⟨h, he⟩

lemma get_bind {f f' : Subst → Solve α} {Q : α → α → Prop} (h : Parallel k (f s) (f' s') s s' Q) :
    Parallel k (get >>= f) (get >>= f') s s' Q :=
  h

lemma attempt (h : Parallel k m m' s s' P) : Parallel k m.attempt m'.attempt s s' (Matches P) := h

lemma ofExcept {x : Except TyError α} {x' : Except TyError α'} (h : Renamed k s s')
    (hx : Matches P x x') :
    Parallel k (MonadExcept.ofExcept x) (MonadExcept.ofExcept x') s s' P := by
  unfold Parallel
  rw [exec_ofExcept, exec_ofExcept]
  exact ⟨h, hx⟩

lemma ite {c c' : Prop} [Decidable c] [Decidable c'] {m₁ m₂ : Solve α} {m₁' m₂' : Solve α'}
    (hc : c' ↔ c) (ht : c → Parallel k m₁ m₁' s s' P) (hf : ¬ c → Parallel k m₂ m₂' s s' P) :
    Parallel k (if c then m₁ else m₂) (if c' then m₁' else m₂') s s' P := by
  by_cases h : c
  · rw [if_pos h, if_pos (hc.2 h)]
    exact ht h
  · rw [if_neg h, if_neg (mt hc.1 h)]
    exact hf h

end Parallel

end Solve

/-! ## Searches under other numbers -/

def Ty.Copy (k : Nat) (t t' : Ty) : Prop := t' = t.rename (shift k)

namespace Subst

open Solve

variable {k : Nat} {s s' : Subst} {a b t v : Ty} {r r' : Searches}

structure Searches.Parallel (k : Nat) (r r' : Searches) : Prop where
  unify : ∀ {s s'} (a b : Ty), Renamed k s s' →
    Solve.Parallel k (r.unify a b) (r'.unify (a.rename (shift k)) (b.rename (shift k))) s
    s' (Ty.Copy k)
  choose : ∀ {s s'} (t : Ty), Renamed k s s' →
  Solve.Parallel k (r.choose t) (r'.choose (t.rename (shift k))) s s' (Ty.Copy k)

lemma Renamed.parallel_bind (h : Renamed k s s') (v t : Ty) :
    Parallel k (bind v t) (bind (v.rename (shift k)) (t.rename (shift k))) s s'
    fun _ _ => True := by
  unfold Parallel
  rw [exec_bindTo, exec_bindTo, Ty.varId?_rename]
  rcases v.varId? with _ | _ | i
  · exact ⟨h, rfl⟩
  · exact ⟨h, rfl⟩
  · have hocc := h.occurs (i + 1) t
    simp only [Option.map_some, shift_succ] at hocc ⊢
    rw [show i + 1 + k = (i + k) + 1 by omega] at hocc ⊢
    simp only [hocc]
    cases hb : s.occurs (i + 1) t with
    | true => exact ⟨h, rfl⟩
    | false =>
      have := h.assign (by omega) hb
      rw [shift_succ, show i + 1 + k = (i + k) + 1 by omega] at this
      exact ⟨this, trivial⟩

lemma Renamed.parallel_remember (h : Renamed k s s') (v a b : Ty) :
    Parallel k (remember v a b) (remember (v.rename (shift k)) (a.rename (shift k))
    (b.rename (shift k))) s s' fun _ _ => True := by
  refine .ite (by simp [shift_injective k]) (fun _ => .pure h trivial) fun _ => ?_
  have halt := Ty.alt_rename (shift_injective k) [a, b]
  simp only [map_cons, map_nil] at halt
  rw [halt]
  exact h.parallel_bind v _

lemma matches_cont {c : Kind} (hc : c.isVar = false) (t : Ty) :
    Matches (Ty.Copy k) (Ty.cont c t) (Ty.cont c (t.rename (shift k))) := by
  unfold Ty.cont
  dsimp only
  rw [← Ty.around_rename hc, Ty.kind_rename, Kind.depth_rename]
  split
  · rfl
  · rfl

lemma matches_join (a b : Ty) (ha : a.kind.isCtx = false) :
    Matches (Ty.Copy k) (join a b) (join (a.rename (shift k)) (b.rename (shift k))) := by
  have hplain {c : Kind} (hc : c.isVar = false) : Ty.Copy k (.plain c) (.plain c) := by
    simp [Ty.Copy, Ty.rename, Kind.rename_of_not_isVar hc]
  have hbare : a.kind.bare.isVar = false := Kind.isVar_eq_false_of_isCtx ha
  unfold join
  simp only [Ty.kind_rename, Kind.family_rename, Kind.isSpec_rename, Kind.bare_rename,
    Ty.isDetailed_rename]
  split_ifs
  · rfl
  · exact hplain hbare
  · rfl
  · rfl
  · rfl
  · exact hplain (Kind.isVar_family_and a.kind b.kind)

namespace Searches.Parallel

variable (hr : Parallel k r r')
include hr

lemma bindVar (h : Renamed k s s') (v t : Ty) : Solve.Parallel k (Subst.bindVar r.choose v t)
    (Subst.bindVar r'.choose (v.rename (shift k)) (t.rename (shift k))) s s' (Ty.Copy k) := by
  have hbind {s s' : Subst} (h : Renamed k s s') (u w : Ty) :
    Solve.Parallel k (do bind v u; return w)
      (do bind (v.rename (shift k)) (u.rename (shift k)); return w.rename (shift k)) s s'
      (Ty.Copy k) :=
    .bind (h.parallel_bind v u) fun _ _ _ _ h _ => .pure h rfl
  unfold Subst.bindVar
  rw [Ty.varId?_rename]
  cases t.varId? with
  | some i =>
    refine .ite ?_ (fun _ => .pure h rfl) fun _ => ?_
    · rw [Ty.varId?_rename]
      cases v.varId? <;> simp [(shift_injective k).eq_iff]
    · have hmerged : (Ty.var (shift k i) ((v.rename (shift k)).members.foldl Ty.addCandidate
        (t.rename (shift k)).members)).optIf (t.rename (shift k)).isOpt =
          ((Ty.var i (v.members.foldl Ty.addCandidate t.members)).optIf t.isOpt).rename
          (shift k) := by
        rw [Ty.members_rename, Ty.members_rename, Ty.foldl_addCandidate_rename (shift_injective k),
          ← Ty.var_rename, Ty.isOpt_rename, Ty.optIf_rename]
      rw [hmerged]
      exact hbind h _ _
  | none =>
    have hto : (if (v.rename (shift k)).isOpt then (t.rename (shift k)).deopt
      else t.rename (shift k)) = (if v.isOpt then t.deopt else t).rename (shift k) := by
      rw [Ty.isOpt_rename]
      split <;> simp
    refine .ite (by simp) (fun _ => ?_) fun _ => .bind (hr.choose t h) fun c c' t t' h hc => ?_
    · rw [hto]
      exact hbind h _ _
    · subst hc
      refine .ite ?_ (fun _ => ?_) fun _ => .throw_bind h rfl
      · simp [Ty.fit_rename (shift_injective k)]
      · rw [hto]
        exact hbind h _ _

lemma elemOf (h : Renamed k s s') (t : Ty) :
    Solve.Parallel k (Subst.elemOf r.choose t) (Subst.elemOf r'.choose (t.rename (shift k))) s s'
      fun e e' => e' = e.map (Ty.rename (shift k)) := by
  refine .ite (by simp) (fun _ => .pure h (by simp)) fun _ =>
    .ite (by simp) (fun _ => .pure h rfl) fun _ => ?_
  have halt : Ty.alt ((t.rename (shift k)).params.map (·.2)) =
    (Ty.alt (t.params.map (·.2))).rename (shift k) := by
    rw [← Ty.alt_rename (shift_injective k)]
    simp [Function.comp_def]
  rw [halt]
  refine .bind (hr.choose _ h) ?_
  rintro u _ t t' h rfl
  exact .pure h rfl

lemma unifyFields (h : Renamed k s s') (b : Ty) (ps : List Param) :
    Solve.Parallel k (Subst.unifyFields r.unify b ps)
      (Subst.unifyFields r'.unify (b.rename (shift k)) (ps.map fun p =>
      (p.1, p.2.rename (shift k)))) s s'
      fun qs qs' => qs' = qs.map fun p => (p.1, p.2.rename (shift k)) := by
  induction ps generalizing s s' with
  | nil => exact .pure h rfl
  | cons p ps ih =>
    obtain ⟨n, t⟩ := p
    simp only [map_cons, Subst.unifyFields, Ty.field?_rename]
    cases b.field? (Param.key n) with
    | none => exact ih h
    | some q =>
      refine .bind (hr.unify t q.2 h) ?_
      rintro u _ s₁ s₁' h₁ rfl
      refine .bind (ih h₁) ?_
      rintro qs _ s₂ s₂' h₂ rfl
      exact .pure h₂ rfl

lemma unifyObjects (h : Renamed k s s') (a b : Ty) :
    Solve.Parallel k (Subst.unifyObjects r.unify a b)
      (Subst.unifyObjects r'.unify (a.rename (shift k)) (b.rename (shift k))) s s' (Ty.Copy k) := by
  have hobj : Kind.obj.rename (shift k) = .obj := Kind.rename_of_not_isVar rfl
  refine .ite (by simp) (fun _ => .pure h (by simp [Ty.Copy, Ty.rename, hobj])) fun _ => ?_
  rw [Ty.params_rename]
  refine .bind (hr.unifyFields h b a.params) ?_
  rintro qs _ s₁ s₁' h₁ rfl
  exact .pure h₁ (by simp [Ty.Copy, Ty.obj, Ty.rename, Ty.renameParams_eq_map, hobj])

lemma unifyContainers (h : Renamed k s s') (a b : Ty) :
    Solve.Parallel k (Subst.unifyContainers r.unify r.choose a b)
      (Subst.unifyContainers r'.unify r'.choose (a.rename (shift k)) (b.rename (shift k))) s s'
      (Ty.Copy k) := by
  have hk := Kind.isVar_family_and a.kind b.kind
  unfold Subst.unifyContainers
  simp only [Ty.kind_rename, Kind.family_rename]
  refine .ite Iff.rfl (fun _ => .throw_bind h rfl) fun _ =>
    .ite Iff.rfl (fun _ => hr.unifyObjects h a b) fun _ => ?_
  refine .bind (hr.elemOf h a) ?_
  rintro ea _ s₁ s₁' h₁ rfl
  refine .bind (hr.elemOf h₁ b) ?_
  rintro eb _ s₂ s₂' h₂ rfl
  cases ea with
  | none =>
    cases eb with
    | none => exact .pure h₂ (by simp [Ty.Copy, Ty.rename, Kind.rename_of_not_isVar hk])
    | some eb => exact .ofExcept h₂ (matches_cont hk eb)
  | some ea =>
    cases eb with
    | none => exact .ofExcept h₂ (matches_cont hk ea)
    | some eb =>
      refine .bind (hr.unify ea eb h₂) ?_
      rintro e _ s₃ s₃' h₃ rfl
      exact .ofExcept h₃ (matches_cont hk e)

lemma unifyPlain (h : Renamed k s s') (a b : Ty) :
    Solve.Parallel k (Subst.unifyPlain r.unify r.choose a b)
      (Subst.unifyPlain r'.unify r'.choose (a.rename (shift k)) (b.rename (shift k))) s s'
      (Ty.Copy k) := by
  have hequal := Ty.equal_rename (shift_injective k)
  have hopt {s s' : Subst} (h : Renamed k s s') (t : Ty) :
    Solve.Parallel k (pure (t.optIf (a.isOpt || b.isOpt)))
      (pure ((t.rename (shift k)).optIf (a.isOpt || b.isOpt))) s s' (Ty.Copy k) :=
      .pure h (by simp [Ty.Copy])
  unfold Subst.unifyPlain
  simp only [Ty.isOpt_rename, Ty.deopt_rename, hequal, Ty.isAny_rename, Ty.kind_rename,
    Kind.isRef_rename, Kind.isSch_rename, Kind.isCtx_rename, Kind.isCont_rename]
  refine .ite Iff.rfl (fun _ => .pure h rfl) fun _ => .ite Iff.rfl (fun _ => hopt h _) fun _ => ?_
  refine .ite Iff.rfl (fun _ => hopt h _) fun _ => .ite Iff.rfl (fun _ => hopt h _) fun _ => ?_
  refine .ite Iff.rfl (fun _ => .throw_bind h rfl) fun _ =>
    .ite Iff.rfl (fun _ => .throw_bind h rfl) fun _ => ?_
  refine .ite Iff.rfl (fun _ => .throw_bind h rfl) fun hctx => ?_
  obtain ⟨hctx, -⟩ : a.deopt.kind.isCtx = false ∧ b.deopt.kind.isCtx = false := by simpa using hctx
  refine .ite Iff.rfl (fun _ => .bind (hr.unifyContainers h _ _) ?_) fun _ =>
    .bind (.ofExcept h (matches_join _ _ hctx)) ?_
  · rintro t _ s₁ s₁' h₁ rfl
    exact hopt h₁ t
  · rintro t _ s₁ s₁' h₁ rfl
    exact hopt h₁ t

lemma foldCandidates (h : Renamed k s s') (optional : Bool) (ts : List Ty) (acc : Option Ty) :
    Solve.Parallel k (Subst.foldCandidates r.unify r.choose optional ts acc)
      (Subst.foldCandidates r'.unify r'.choose optional (ts.map (Ty.rename (shift k)))
      (acc.map (Ty.rename (shift k)))) s s' (Ty.Copy k) := by
  have hplain {c : Kind} (hc : c.isVar = false) : (Ty.plain c).rename (shift k) = .plain c := by
    simp [Ty.rename, Kind.rename_of_not_isVar hc]
  have hany {s s' : Subst} (h : Renamed k s s') : Solve.Parallel k (pure (Ty.any.optIf optional))
      (pure (Ty.any.optIf optional)) s s' (Ty.Copy k) :=
      .pure h (by rw [Ty.Copy, ← Ty.optIf_rename, Ty.any, hplain rfl])
  induction ts generalizing s s' acc with
  | nil =>
    cases acc with
    | none => exact .pure h (hplain rfl).symm
    | some t => exact .pure h (by simp [Ty.Copy])
  | cons t ts ih =>
    refine .bind (hr.choose t h) ?_
    rintro t _ s₁ s₁' h₁ rfl
    cases acc with
    | none => exact ih h₁ (some t)
    | some prev =>
      refine .bind (.attempt (hr.unify prev t h₁)) fun x x' s₂ s₂' h₂ hx => ?_
      rcases x with e | u <;> rcases x' with e' | u'
      · -- The kind of the error says how the fold goes on.
        cases e <;> cases e' <;> first | exact hany h₂ | exact .throw h₂ hx | cases hx
      · exact hx.elim
      · exact hx.elim
      · subst hx
        exact ih h₂ (some u)

lemma mapM_choose (h : Renamed k s s') (ps : List Param) :
    Solve.Parallel k (ps.mapM fun (n, p) => do return (n, ← r.choose p))
      ((ps.map fun p => (p.1, p.2.rename (shift k))).mapM fun (n, p) =>
      do return (n, ← r'.choose p)) s s'
      fun qs qs' => qs' = qs.map fun p => (p.1, p.2.rename (shift k)) := by
  induction ps generalizing s s' with
  | nil =>
    exact .pure h rfl
  | cons p ps ih =>
    simp only [map_cons, mapM_cons, bind_assoc, pure_bind]
    refine .bind (hr.choose p.2 h) ?_
    rintro t _ s₁ s₁' h₁ rfl
    refine .bind (ih h₁) ?_
    rintro qs _ s₂ s₂' h₂ rfl
    exact .pure h₂ rfl

lemma mapParams (h : Renamed k s s') (t : Ty) :
    Solve.Parallel k (Subst.mapParams r.choose t) (Subst.mapParams r'.choose (t.rename (shift k))) s
    s' (Ty.Copy k) := by
  unfold Subst.mapParams
  rw [Ty.params_rename]
  refine .bind (hr.mapM_choose h t.params) ?_
  rintro qs _ s₁ s₁' h₁ rfl
  exact .pure h₁ (Ty.withParams_rename qs).symm

lemma unifyWith (h : Renamed k s s') (a b : Ty) : Solve.Parallel k (Subst.unifyWith r a b)
    (Subst.unifyWith r' (a.rename (shift k)) (b.rename (shift k))) s s' (Ty.Copy k) := by
  have hnote {c : Prop} [Decidable c] {s s' : Subst} (h : Renamed k s s') (v t u : Ty)
    {m m' : Solve Ty} (hm : ∀ s s', Renamed k s s' → Solve.Parallel k m m' s s' (Ty.Copy k)) :
      Solve.Parallel k (if c then remember v t u >>= fun _ => m else m)
        (if c then remember (v.rename (shift k)) (t.rename (shift k)) (u.rename (shift k)) >>=
        fun _ => m' else m') s s' (Ty.Copy k) :=
    .ite Iff.rfl (fun _ => .bind (h.parallel_remember v t u) fun _ _ s s' h _ => hm s s' h) fun _ =>
      hm s s' h
  refine .get_bind ?_
  simp only [h.apply, Ty.equal_rename (shift_injective k), Ty.kind_rename,
    Kind.isVar_rename, h.isBound]
  refine .ite Iff.rfl (fun _ => .pure h rfl) fun _ => ?_
  refine .ite Iff.rfl (fun _ => hr.bindVar h _ _) fun _ =>
    .ite Iff.rfl (fun _ => hr.bindVar h _ _) fun _ => ?_
  refine .bind (hr.choose _ h) ?_
  rintro ca _ s₁ s₁' h₁ rfl
  refine .bind (hr.choose _ h₁) ?_
  rintro cb _ s₂ s₂' h₂ rfl
  refine .bind (hr.unifyPlain h₂ ca cb) ?_
  rintro u _ s₃ s₃' h₃ rfl
  exact hnote h₃ _ _ _ fun s₄ s₄' h₄ => hnote h₄ _ _ _ fun s₅ s₅' h₅ => .pure h₅ rfl

lemma chooseWith (h : Renamed k s s') (t : Ty) :
    Solve.Parallel k (Subst.chooseWith r t) (Subst.chooseWith r' (t.rename (shift k))) s s'
    (Ty.Copy k) := by
  refine .get_bind ?_
  simp only [h.apply]
  generalize s.apply t = u
  simp only [Ty.kind_rename, Kind.isAlt_rename, Kind.isVar_rename, Ty.isOpt_rename,
    Ty.members_rename, List.any_map, Function.comp_def]
  refine .ite Iff.rfl (fun _ => hr.foldCandidates h _ _ Option.none) fun _ => ?_
  exact .ite Iff.rfl (fun _ => .pure h rfl) fun _ => hr.mapParams h u

lemma step : Parallel k r.step r'.step :=
  ⟨fun a b h => hr.unifyWith h a b, fun t h => hr.chooseWith h t⟩

end Searches.Parallel

lemma Searches.parallel_deep (k n : Nat) : Parallel k (none.deep n) (none.deep n) := by
  induction n with
  | zero => exact ⟨fun _ _ h => .throw h rfl, fun _ h => .throw h rfl⟩
  | succ n ih => exact ih.step

namespace Renamed

variable (h : Renamed k s s')
include h

lemma parallel_unify (a b : Ty) :
    Parallel k (unify a b) (unify (a.rename (shift k)) (b.rename (shift k))) s s' (Ty.Copy k) := by
  have hleft := h.left.within_support [a, b]
  have hright := h.right.within_support [a.rename (shift k), b.rename (shift k)]
  obtain ⟨-, m, hm⟩ :=
    settles_along_iff.1 ((behaves hleft).unify a b (over_support (by simp))
      (over_support (by simp)))
  obtain ⟨-, n, hn⟩ :=
    settles_along_iff.1 ((behaves hright).unify (a.rename (shift k)) (b.rename (shift k))
    (over_support (by simp)) (over_support (by simp)))
  have hdeep := (Searches.parallel_deep k (m + n)).unify a b h
  unfold Parallel at hdeep ⊢
  simp only [Searches.beside] at hm hn
  rwa [hm (m + n) (by omega) .none, hn (m + n) (by omega) .none] at hdeep

lemma parallel_choose (t : Ty) :
    Parallel k (choose t) (choose (t.rename (shift k))) s s' (Ty.Copy k) := by
  have hleft := h.left.within_support [t]
  have hright := h.right.within_support [t.rename (shift k)]
  obtain ⟨-, m, hm⟩ := settles_along_iff.1 ((behaves hleft).choose t (over_support (by simp)))
  obtain ⟨-, n, hn⟩ :=
    settles_along_iff.1 ((behaves hright).choose (t.rename (shift k)) (over_support (by simp)))
  have hdeep := (Searches.parallel_deep k (m + n)).choose t h
  unfold Parallel at hdeep ⊢
  simp only [Searches.beside] at hm hn
  rwa [hm (m + n) (by omega) .none, hn (m + n) (by omega) .none] at hdeep

lemma parallel_realize (t : Ty) :
    Parallel k (realize t) (realize (t.rename (shift k))) s s' Eq := by
  refine .get_bind ?_
  rw [h.apply]
  refine .bind (h.parallel_choose _) ?_
  rintro u _ s₁ s₁' h₁ rfl
  refine .get_bind ?_
  simp only [h₁.apply, h₁.isEmpty_free]
  refine .ite Iff.rfl (fun hfree => .pure h₁ ?_) fun _ => .throw h₁ rfl
  have hground : (s₁.apply u).isGround := by
    rw [Ty.isGround, List.isEmpty_iff, eq_nil_iff_forall_not_mem]
    intro i hi
    have hmem : i ∈ s₁.free (s₁.apply u) := h₁.left.mem_free_iff.2
      ⟨⟨i, outerVars_subset_links _ _ hi, .refl⟩, h₁.left.get?_of_mem_outerVars_apply hi⟩
    simp_all
  exact (Ty.rename_of_isGround hground).symm

end Renamed

end Subst

end Resolvent
