import Resolvent.Proofs.Subst.Search
import Resolvent.Proofs.Ty.Alternative
import Resolvent.Proofs.Ty.Variables

/-!
# One search around others

What `unifyWith` and `chooseWith` do if the searches they call behave.
-/

namespace Resolvent

open List

namespace Kind

lemma isVar_eq_false_of_isAlt {k : Kind} (h : k.isAlt) : k.isVar = false := by
  simp only [isAlt, beq_iff_eq] at h
  simp only [isVar, h]
  decide

lemma isVar_eq_false_of_isCtx {k : Kind} (h : k.isCtx = false) : k.isVar = false := by
  cases hv : k.isVar with
  | false => rfl
  | true =>
    simp only [isVar, beq_iff_eq] at hv
    rw [isCtx, meets, hv] at h
    exact absurd h (by decide)

lemma isCtx_family_and (j k : Kind) : (⟨j.family &&& k.family, false, 0⟩ : Kind).isCtx = false := by
  have hmask : ~~~ctxMask &&& ctxMask = 0 := by decide
  simp [isCtx, meets, family, UInt32.and_assoc]

/-- What the families of two kinds have in common. -/
def meet (j k : Kind) : Kind := ⟨j.family &&& k.family, false, 0⟩

lemma isVar_family_and (j k : Kind) : (⟨j.family &&& k.family, false, 0⟩ : Kind).isVar = false :=
  isVar_eq_false_of_isCtx (isCtx_family_and j k)

end Kind

namespace Subst

open Solve

variable {α β ι : Type} {F : Filter ι} {R : ι → Searches} {G : Subst → Subst → Prop}
  {E : TyError → Prop} {s s₁ s₂ : Subst}
  {raw part whole : Ty → Subst → Prop} {wide free : Ty → Prop} {a b t v : Ty} {ts : List Ty}
    {ps : List Param} {m : ι → Solve α}

/-! ## Outcomes -/

/-- A search that goes where it may, and ends in a good result or in a failure that is expected. -/
def Ended (G : Subst → Subst → Prop) (E : TyError → Prop) (s : Subst) (good : α → Subst → Prop) :
    Except TyError α → Subst → Prop
  | .ok x, s' => G s s' ∧ good x s'
  | .error e, s' => G s s' ∧ E e

namespace Ended

variable {good better : α → Subst → Prop} {r : Except TyError α}

lemma step (h : Ended G E s good r s₁) : G s s₁ := by cases r <;> exact h.1

lemma mono (h : Ended G E s good r s₁) (hgood : ∀ x, G s s₁ → good x s₁ → better x s₁) :
    Ended G E s better r s₁ := by
  cases r with
  | ok x => exact ⟨h.1, hgood x h.1 h.2⟩
  | error e => exact h

lemma attempt (h : Settles F m s (Ended G E s good)) :
    Settles F (fun i => (m i).attempt) s (Ended G E s fun r s' => Ended G E s good r s') :=
  .attempt (h.mono fun _ _ hr => ⟨hr.step, hr⟩)

end Ended

lemma keeps_iff {I : Subst → Prop} {m : Solve α} {P : α → Prop} :
    Keeps I m s P ↔ Settles (pure ()) (fun _ => m) s (Ended (fun _ => I) (fun _ => True) s
    fun x _ => P x) := by
  simp only [Settles, Keeps]
  rcases m.exec s with ⟨_ | x, s'⟩ <;> simp [Ended]

/-! ## What a search needs -/

/-- The family settles on parts of the types at hand from every substitution that may be reached
from `s`. Choosing turns raw parts into parts. -/
structure Course (F : Filter ι) (R : ι → Searches) (G : Subst → Subst → Prop)
    (E : TyError → Prop) (s : Subst) (raw part whole : Ty → Subst → Prop) : Prop where
  refl : ∀ {s₁}, G s s₁ → G s₁ s₁
  trans : ∀ {s₁ s₂ s₃}, G s₁ s₂ → G s₂ s₃ → G s₁ s₃
  fails : ∀ {e}, e ≠ .exhausted → E e
  raw_step : ∀ {t s₁ s₂}, raw t s₁ → G s₁ s₂ → raw t s₂
  part_step : ∀ {t s₁ s₂}, part t s₁ → G s₁ s₂ → part t s₂
  unify : ∀ {s₁ a b}, G s s₁ → part a s₁ → part b s₁ →
  Settles F (fun i => (R i).unify a b) s₁ (Ended G E s₁ part)
  choose : ∀ {s₁ t}, G s s₁ → raw t s₁ → Settles F (fun i => (R i).choose t) s₁ (Ended G E s₁ part)
  whole_of_part : ∀ {t s₁}, part t s₁ → whole t s₁
  optIf : ∀ {t s₁} b, whole t s₁ → whole (t.optIf b) s₁
  plain : ∀ {k s₁}, k.isKnown → k.isCtx = false → k.slot = 0 → whole (.plain k) s₁

namespace Course

section

variable (h : Course F R G E s raw part whole) {good : α → Subst → Prop} {good' : β → Subst → Prop}
  {k : ι → α → Solve β}
include h

lemma pure {x : α} (hg : G s s₁) (hx : good x s₁) :
    Settles F (fun _ => Pure.pure x) s₁ (Ended G E s₁ good) :=
  .pure ⟨h.refl hg, hx⟩

lemma throw_bind {e : TyError} (hg : G s s₁) (he : e ≠ .exhausted) :
    Settles F (fun i => throw e >>= k i) s₁ (Ended G E s₁ good') :=
  .of_exec rfl ⟨h.refl hg, h.fails he⟩

lemma bind (hm : Settles F m s₁ (Ended G E s₁ good))
    (hk : ∀ x s₂, G s₁ s₂ → good x s₂ → Settles F (fun i => k i x) s₂ (Ended G E s₂ good')) :
    Settles F (fun i => m i >>= k i) s₁ (Ended G E s₁ good') := by
  refine hm.bind (fun x s₂ hx => ?_) fun e s₂ he => he
  refine (hk x s₂ hx.1 hx.2).mono fun r s₃ hr => ?_
  cases r <;> exact ⟨h.trans hx.1 hr.1, hr.2⟩

lemma foldCandidates (optional : Bool) (acc : Option Ty) (hg : G s s₁) (hts : ∀ t ∈ ts, raw t s₁)
    (hacc : ∀ t, acc = some t → part t s₁) :
    Settles F (fun i => Subst.foldCandidates (R i).unify (R i).choose optional ts acc) s₁
    (Ended G E s₁ whole) := by
  have hany (s₂ : Subst) : whole (Ty.any.optIf optional) s₂ :=
    h.optIf _ (h.plain (by decide) (by decide) rfl)
  induction ts generalizing s₁ acc with
  | nil =>
    refine h.pure hg ?_
    cases acc with
    | none => exact h.plain (by decide) (by decide) rfl
    | some t => exact h.optIf _ (h.whole_of_part (hacc t rfl))
  | cons t ts ih =>
    unfold Subst.foldCandidates
    refine h.bind (h.choose hg (hts t (by simp))) fun t s₂ hg₂ ht => ?_
    have hrest (u : Ty) (hu : u ∈ ts) : raw u s₂ := h.raw_step (hts u (by simp [hu])) hg₂
    cases acc with
    | none => exact ih _ (h.trans hg hg₂) hrest (by rintro _ ⟨⟩; exact ht)
    | some prev =>
      -- A failed attempt keeps its bindings, so the rest starts where it stopped.
      have hunify := h.unify (h.trans hg hg₂) (h.part_step (hacc prev rfl) hg₂) ht
      refine h.bind (Ended.attempt hunify) fun r s₃ hg₃ hr => ?_
      have hg' := h.trans (h.trans hg hg₂) hg₃
      cases r with
      | ok joined => exact ih _ hg' (fun u hu =>
        h.raw_step (hrest u hu) hg₃) (by rintro _ ⟨⟩; exact hr.2)
      | error e =>
        split
        · next heq => cases heq
        · exact h.pure hg' (hany s₃)
        · exact h.pure hg' (hany s₃)
        · next heq => exact .throw ⟨h.refl hg', by cases heq; exact hr.2⟩

lemma mapM_choose (hg : G s s₁) (hps : ∀ p ∈ ps, raw p.2 s₁) :
    Settles F (fun i => ps.mapM fun (n, p) => do return (n, ← (R i).choose p)) s₁
      (Ended G E s₁ fun qs s₂ => qs.map (·.1) = ps.map (·.1) ∧ ∀ q ∈ qs, part q.2 s₂) := by
  induction ps generalizing s₁ with
  | nil =>
    exact h.pure hg (by simp)
  | cons p ps ih =>
    simp only [mapM_cons, bind_assoc, pure_bind]
    refine h.bind (h.choose hg (hps p (by simp))) fun t s₂ hg₂ ht => ?_
    have hrest := ih (h.trans hg hg₂) fun q hq => h.raw_step (hps q (by simp [hq])) hg₂
    refine h.bind hrest fun qs s₃ hg₃ hqs =>
      h.pure (h.trans (h.trans hg hg₂) hg₃) ⟨by simp [hqs.1], ?_⟩
    exact forall_mem_cons.2 ⟨h.part_step ht hg₃, hqs.2⟩

lemma mapParams (hg : G s s₁) (hps : ∀ p ∈ t.params, raw p.2 s₁)
    (ht : ∀ qs s₂, qs.map (·.1) = t.params.map (·.1) → (∀ q ∈ qs, part q.2 s₂) →
    whole (t.withParams qs) s₂) :
    Settles F (fun i => Subst.mapParams (R i).choose t) s₁ (Ended G E s₁ whole) := by
  refine h.bind (h.mapM_choose hg hps) fun qs s₂ hg₂ hqs => ?_
  exact h.pure (h.trans hg hg₂) (ht qs s₂ hqs.1 hqs.2)

end

/-- The types at hand can be taken apart, and others put together from their parts. -/
structure Unifies (F : Filter ι) (R : ι → Searches) (G : Subst → Subst → Prop)
    (E : TyError → Prop) (s : Subst)
    (raw part whole : Ty → Subst → Prop) : Prop extends Course F R G E s raw part whole where
  whole_step : ∀ {t s₁ s₂}, whole t s₁ → G s₁ s₂ → whole t s₂
  deopt : ∀ {t s₁}, whole t s₁ → whole t.deopt s₁
  param : ∀ {t s₁}, whole t s₁ → t.kind.isCtx = false → ∀ p ∈ t.params, part p.2 s₁
  bare : ∀ {t s₁}, whole t s₁ → t.kind.isCtx = false → whole (.plain t.kind.bare) s₁
  meet : ∀ {a b s₁}, whole a s₁ → whole b s₁ → a.kind.isCont → b.kind.isCont →
  ((a.kind.meet b.kind).bits == 0) = false → (a.kind.meet b.kind).isObj = false →
    whole (.plain (a.kind.meet b.kind)) s₁ ∧ ∀ e, part e s₁ →
    whole (.around (a.kind.meet b.kind) e) s₁
  obj : ∀ {a b s₁ name qs}, whole a s₁ → whole b s₁ → (a.kind.meet b.kind).isObj →
    (∀ q ∈ qs, part q.2 s₁ ∧ ∃ p, (p ∈ a.params ∨ p ∈ b.params) ∧ p.1 = q.1) →
    whole (.obj name qs) s₁
  choose_alt : ∀ {s₁ ts}, G s s₁ → ts ≠ [] → (∀ t ∈ ts, part t s₁) →
    Settles F (fun i => (R i).choose (.alt ts)) s₁ (Ended G E s₁ part)

namespace Unifies

section

variable (h : Unifies F R G E s raw part whole)
include h

lemma elemOf (hg : G s s₁) (hctx : t.kind.isCtx = false) (ht : whole t s₁) :
    Settles F (fun i => Subst.elemOf (R i).choose t) s₁ (Ended G E s₁ fun e s₂ => ∀ u, e = some u →
    part u s₂) := by
  refine .ite (fun _ => h.pure hg fun u hu => ?_) fun _ =>
    .ite (fun _ => h.pure hg (by simp)) fun hne => ?_
  · obtain ⟨p, hp, rfl⟩ := Ty.exists_param_of_elem? hu
    exact h.param ht hctx p hp
  · have hparts : ∀ u ∈ t.params.map (·.2), part u s₁ := List.forall_mem_map.2 (h.param ht hctx)
    refine h.bind (h.choose_alt hg (by simpa using hne) hparts) fun u s₂ hg₂ hu => ?_
    refine h.pure (h.trans hg hg₂) ?_
    rintro _ ⟨⟩
    exact hu

lemma unifyFields (hctx : b.kind.isCtx = false) (hg : G s s₁) (hb : whole b s₁)
    (hps : ∀ p ∈ ps, part p.2 s₁) : Settles F (fun i => Subst.unifyFields (R i).unify b ps) s₁
      (Ended G E s₁ fun qs s₂ => ∀ q ∈ qs, part q.2 s₂ ∧ ∃ p, (p ∈ ps ∨ p ∈ b.params) ∧
      p.1 = q.1) := by
  induction ps generalizing s₁ with
  | nil => exact h.pure hg (by simp)
  | cons p ps ih =>
    obtain ⟨n, t⟩ := p
    unfold Subst.unifyFields
    split
    · next m u hfield =>
      have hmem : (m, u) ∈ b.params := mem_of_find?_eq_some hfield
      refine h.bind (h.unify hg (hps (n, t) (by simp)) (h.param hb hctx _ hmem))
        fun typ s₂ hg₂ htyp => ?_
      have hrest := ih (h.trans hg hg₂) (h.whole_step hb hg₂) fun p hp =>
        h.part_step (hps p (by simp [hp])) hg₂
      refine h.bind hrest fun rest s₃ hg₃ hrest => h.pure (h.trans (h.trans hg hg₂) hg₃) ?_
      refine forall_mem_cons.2 ⟨⟨h.part_step htyp hg₃, ?_⟩, fun q hq => ?_⟩
      · by_cases hopt : Param.isOpt n
        · exact ⟨(m, u), .inr hmem, by simp [hopt]⟩
        · exact ⟨(n, t), by simp, by simp [hopt]⟩
      · obtain ⟨hq, p, hp, heq⟩ := hrest q hq
        exact ⟨hq, p, hp.imp_left (mem_cons_of_mem _), heq⟩
    · refine (ih hg hb fun p hp => hps p (by simp [hp])).mono fun r s₂ hr =>
        hr.mono fun qs _ hqs q hq => ?_
      obtain ⟨hq, p, hp, heq⟩ := hqs q hq
      exact ⟨hq, p, hp.imp_left (mem_cons_of_mem _), heq⟩

lemma unifyObjects (hg : G s s₁) (hctx : a.kind.isCtx = false ∧ b.kind.isCtx = false)
    (ha : whole a s₁) (hb : whole b s₁) (hobj : (a.kind.meet b.kind).isObj) :
    Settles F (fun i => Subst.unifyObjects (R i).unify a b) s₁ (Ended G E s₁ whole) := by
  refine .ite (fun _ => h.pure hg (h.plain (by decide) (by decide) rfl)) fun _ => ?_
  refine h.bind (h.unifyFields hctx.2 hg hb (h.param ha hctx.1)) fun qs s₂ hg₂ hqs => ?_
  exact h.pure (h.trans hg hg₂) (h.obj (h.whole_step ha hg₂) (h.whole_step hb hg₂) hobj hqs)

lemma unifyContainers (hg : G s s₁) (hctx : a.kind.isCtx = false ∧ b.kind.isCtx = false)
    (hcont : a.kind.isCont ∧ b.kind.isCont) (ha : whole a s₁) (hb : whole b s₁) :
    Settles F (fun i => Subst.unifyContainers (R i).unify (R i).choose a b) s₁
    (Ended G E s₁ whole) := by
  refine .ite (fun _ => h.throw_bind hg (by simp)) fun hne => .ite (fun hobj => ?_) fun hobj => ?_
  · exact h.unifyObjects hg hctx ha hb hobj
  · -- A container is built around an element, if it is not too deep.
    have hmeet {s₂ : Subst} (hg₂ : G s₁ s₂) :=
      h.meet (h.whole_step ha hg₂) (h.whole_step hb hg₂) hcont.1 hcont.2
      (Bool.eq_false_iff.2 hne) (Bool.eq_false_iff.2 hobj)
    have hcont {s₂ : Subst} {e : Ty} (hg₂ : G s₁ s₂) (he : part e s₂) :
        Settles F (fun _ => ofExcept (Ty.cont (a.kind.meet b.kind) e)) s₂ (Ended G E s₂ whole) := by
      refine .ofExcept ?_
      unfold Ty.cont
      dsimp only
      split
      · exact ⟨h.refl (h.trans hg hg₂), h.fails (by simp)⟩
      · exact ⟨h.refl (h.trans hg hg₂), (hmeet hg₂).2 e he⟩
    refine h.bind (h.elemOf hg hctx.1 ha) fun ea s₂ hg₂ hea => ?_
    refine h.bind (h.elemOf (h.trans hg hg₂) hctx.2 (h.whole_step hb hg₂)) fun eb s₃ hg₃ heb => ?_
    have hg' := h.trans hg₂ hg₃
    cases ea with
    | none =>
      cases eb with
      | none => exact h.pure (h.trans hg hg') (hmeet hg').1
      | some eb => exact hcont hg' (heb eb rfl)
    | some ea =>
      have hea := h.part_step (hea ea rfl) hg₃
      cases eb with
      | none => exact hcont hg' hea
      | some eb =>
        refine h.bind (h.unify (h.trans hg hg') hea (heb eb rfl)) fun e s₄ hg₄ he => ?_
        exact hcont (h.trans hg' hg₄) he

lemma join (hg : G s s₁) (hctx : a.kind.isCtx = false) (ha : whole a s₁) (hb : whole b s₁) :
    Settles F (fun _ => ofExcept (Subst.join a b)) s₁ (Ended G E s₁ whole) := by
  refine .ofExcept ?_
  unfold Subst.join
  dsimp only
  split_ifs with _ _ hcommon
  · exact ⟨h.refl hg, h.fails (by simp)⟩
  · exact ⟨h.refl hg, h.bare ha hctx⟩
  · exact ⟨h.refl hg, h.fails (by simp)⟩
  · exact ⟨h.refl hg, ha⟩
  · exact ⟨h.refl hg, hb⟩
  · refine ⟨h.refl hg, h.plain ?_ (Kind.isCtx_family_and a.kind b.kind) rfl⟩
    simp only [Bool.or_eq_true, not_or] at hcommon
    simpa using hcommon.1.2

lemma unifyPlain (hg : G s s₁) (ha : whole a s₁) (hb : whole b s₁) :
    Settles F (fun i => Subst.unifyPlain (R i).unify (R i).choose a b) s₁ (Ended G E s₁ whole) := by
  have ha' := h.deopt ha
  have hb' := h.deopt hb
  have hopt (s₂ : Subst) (t : Ty) (hg₂ : G s₁ s₂) (ht : whole t s₂) :
      Settles F (fun _ => Pure.pure (t.optIf (a.isOpt || b.isOpt))) s₂ (Ended G E s₂ whole) :=
    h.pure (h.trans hg hg₂) (h.optIf _ ht)
  refine .ite (fun _ => h.pure hg ha) fun _ => ?_
  refine .ite (fun _ => hopt s₁ _ (h.refl hg) ha') fun _ => ?_
  refine .ite (fun _ => hopt s₁ _ (h.refl hg) hb') fun _ => ?_
  refine .ite (fun _ => hopt s₁ _ (h.refl hg) ha') fun _ => ?_
  refine .ite (fun _ => h.throw_bind hg (by simp)) fun _ => ?_
  refine .ite (fun _ => h.throw_bind hg (by simp)) fun _ => ?_
  refine .ite (fun _ => h.throw_bind hg (by simp)) fun hctx => ?_
  replace hctx : a.deopt.kind.isCtx = false ∧ b.deopt.kind.isCtx = false := by simpa using hctx
  refine .ite (fun hcont => ?_) fun _ => ?_
  · exact h.bind (h.unifyContainers hg hctx (by simpa using hcont) ha' hb') fun t s₂ => hopt s₂ t
  · exact h.bind (h.join hg hctx.1 ha' hb') fun t s₂ => hopt s₂ t

end

end Unifies

/-- Variables may be bound to types over a set, and what a free variable is bound to is a type at
hand. -/
structure Binds (F : Filter ι) (R : ι → Searches) (G : Subst → Subst → Prop)
    (E : TyError → Prop) (s : Subst) (raw part whole : Ty → Subst → Prop) (wide free : Ty → Prop) :
    Prop extends Unifies F R G E s raw part whole where
  choose_whole : ∀ {s₁ t}, G s s₁ → whole t s₁ →
  Settles F (fun i => (R i).choose t) s₁ (Ended G E s₁ whole)
  over_whole : ∀ {t s₁}, whole t s₁ → wide t
  over_deopt : ∀ {t}, wide t → wide t.deopt
  over_alt : ∀ {a b}, wide a → wide b → wide (.alt [a, b])
  over_merged : ∀ {v t id}, wide v → wide t → t.varId? = some id →
    wide ((Ty.var id (v.members.foldl Ty.addCandidate t.members)).optIf t.isOpt)
  assign : ∀ {s₁ v t}, G s s₁ → wide v → wide t →
    Settles F (fun _ => Subst.bind v t) s₁ (Ended G E s₁ fun _ s₂ => free v →
    ∀ w, wide w → whole w s₂)

namespace Binds

variable (h : Binds F R G E s raw part whole wide free)
include h

lemma bindVar (hs : G s s) (hfree : free v) (hv : wide v) (ht : whole t s) :
    Settles F (fun i => Subst.bindVar (R i).choose v t) s (Ended G E s whole) := by
  have hot := h.over_whole ht
  have hbind (s₁ : Subst) (u w : Ty) (hg : G s s₁) (hu : wide u) (hw : wide w) :
      Settles F (fun _ => do Subst.bind v u; return w) s₁ (Ended G E s₁ whole) :=
    h.bind (h.assign hg hv hu) fun _ s₂ hg₂ hwhole => h.pure (h.trans hg hg₂) (hwhole hfree w hw)
  unfold Subst.bindVar
  cases hid : t.varId? with
  | some id =>
    have hmerged := h.over_merged hv hot hid
    exact .ite (fun _ => h.pure hs ht) fun _ => hbind s _ _ hs hmerged hmerged
  | none =>
    have hto : wide (if v.isOpt then t.deopt else t) := by
      split
      · exact h.over_deopt hot
      · exact hot
    refine .ite (fun _ => hbind s _ _ hs hto hot) fun _ => ?_
    refine h.bind (h.choose_whole hs ht) fun c s₁ hg₁ _ =>
      .ite (fun _ => hbind s₁ _ _ hg₁ hto hot) fun _ => ?_
    exact h.throw_bind hg₁ (by simp)

lemma note {c : Prop} [Decidable c] {m : ι → Solve Ty} {good : Ty → Subst → Prop} (hg : G s s₁)
    (hv : wide v) (ha : wide a) (hb : wide b)
    (hm : ∀ s₂, G s₁ s₂ → Settles F m s₂ (Ended G E s₂ good)) :
    Settles F (fun i => if c then remember v a b >>= fun _ => m i else m i) s₁
    (Ended G E s₁ good) := by
  have hremember : Settles F (fun _ => remember v a b) s₁ (Ended G E s₁ fun _ _ => True) := by
    refine .ite (fun _ => h.pure hg trivial) fun _ => ?_
    exact (h.assign hg hv (h.over_alt ha hb)).mono fun r s₂ hr => hr.mono fun _ _ _ => trivial
  exact .ite (fun _ => h.bind hremember fun _ s₂ hg₂ _ => hm s₂ hg₂) fun _ => hm s₁ (h.refl hg)

lemma unifyWith (hs : G s s) (ha : wide a) (hb : wide b) (hta : whole (s.apply a) s)
    (htb : whole (s.apply b) s) (hfree : ∀ t, (s.apply t).kind.isVar → free (s.apply t)) :
    Settles F (fun i => Subst.unifyWith (R i) a b) s (Ended G E s whole) := by
  refine .get_bind ?_
  refine .ite (fun _ => h.pure hs hta) fun _ => ?_
  refine .ite (fun hv => h.bindVar hs (hfree a hv) (h.over_whole hta) htb) fun _ => ?_
  refine .ite (fun hv => h.bindVar hs (hfree b hv) (h.over_whole htb) hta) fun _ => ?_
  refine h.bind (h.choose_whole hs hta) fun ca s₁ hg₁ hca => ?_
  refine h.bind (h.choose_whole hg₁ (h.whole_step htb hg₁)) fun cb s₂ hg₂ hcb => ?_
  have hg₂' := h.trans hg₁ hg₂
  refine h.bind (h.unifyPlain hg₂' (h.whole_step hca hg₂) hcb) fun res s₃ hg₃ hres => ?_
  have hg₃' := h.trans hg₂' hg₃
  refine h.note hg₃' ha (h.over_whole hta) (h.over_whole hres) fun s₄ hg₄ => ?_
  have hg₄' := h.trans hg₃' hg₄
  refine h.note hg₄' hb (h.over_whole htb) (h.over_whole hres) fun s₅ hg₅ => ?_
  exact h.pure (h.trans hg₄' hg₅) (h.whole_step hres (h.trans hg₄ hg₅))

end Binds

end Course

end Subst

end Resolvent
