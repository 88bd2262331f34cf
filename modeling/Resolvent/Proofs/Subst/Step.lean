import Resolvent.Proofs.Subst.Course
import Resolvent.Proofs.Subst.Growth

/-!
# Searches among low types

Searches behave if they settle on types that are lower, and on all types once a further variable is
bound.
-/

namespace Resolvent

namespace Subst

open Solve

variable {α β ι : Type} {F : Filter ι} {V : Finset Nat} {s s₁ s₂ : Subst} {d D e : Nat}
  {a b t v : Ty} {ts : List Ty}

/-- A search that keeps within the set and ends in a good result or in a failure that says why. -/
abbrev Post (V : Finset Nat) (s : Subst) (good : α → Subst → Prop) :
    Except TyError α → Subst → Prop :=
  Ended (Grown V) (· ≠ .exhausted) s good

namespace Post

variable {good : α → Subst → Prop} {r : Except TyError α}

lemma grown (h : Post V s good r s₁) : Grown V s s₁ := h.step

lemma ne_exhausted (h : Post V s good r s₁) : r ≠ .error .exhausted := by
  rintro rfl
  exact h.2 rfl

end Post

/-! ## Binding a variable -/

lemma exec_bindTo (v t : Ty) (s : Subst) : (bind v t).exec s = match v.varId? with
      | some (id + 1) =>
        if s.occurs (id + 1) t then (.error (.recursive v t), s) else (.ok (), s.assign (id + 1) t)
      | _ => (.error (.notAVariable v), s) := by
  unfold bind
  rcases v.varId? with _ | _ | id
  · rfl
  · rfl
  · simp only [exec_get_bind]
    split <;> rfl

lemma settles_bind (h : Within V s) (hv : v.Over V) (ht : t.Over V) :
    Settles F (fun _ => bind v t) s (Post V s fun _ s' => (s'.get? v.kind.slot).isSome) := by
  refine .of_exec (exec_bindTo v t s) ?_
  cases hid : v.varId? with
  | none => exact ⟨.refl h, by simp⟩
  | some id =>
    obtain ⟨hvar, hslot⟩ : v.kind.isVar ∧ v.kind.slot = id := by simpa [Ty.varId?] using hid
    cases id with
    | zero => exact ⟨.refl h, by simp⟩
    | succ id =>
      rw [Ty.over_of_isVar hvar, hslot] at hv
      cases hocc : s.occurs (id + 1) t with
      | true =>
        simp only [hocc]
        exact ⟨.refl h, by simp⟩
      | false =>
        simp only [hocc]
        exact ⟨.assign h (by simp) hv ht hocc, by simp [hslot]⟩

lemma over_alt (h : ∀ t ∈ ts, t.Over V) : (Ty.alt ts).Over V := by
  refine Ty.alt_induct h (fun t ht halt => ?_) (fun _ => id) fun cands hc =>
    (Ty.over_of_not_isVar rfl).2 ?_
  · exact (Ty.over_of_not_isVar (Kind.isVar_eq_false_of_isAlt halt)).1 ht
  · simpa [Ty.params] using hc

/-! ## Searches that behave -/

/-- The height of what choosing makes of a type: an alternative goes over to one of its candidates,
or to `any`. -/
def chosenHeight (t : Ty) : Nat := if t.kind.isAlt then max 1 (t.height - 1) else t.height

lemma chosenHeight_le (t : Ty) : chosenHeight t ≤ t.height := by
  have := t.height_pos
  unfold chosenHeight
  split <;> omega

@[simp] lemma chosenHeight_settled (t : Ty) : chosenHeight t.settled = chosenHeight t := by
  have hk : t.settled.kind.isAlt = t.kind.isAlt := by
    cases hv : t.kind.isVar with
    | true => rw [Ty.settled_of_isVar hv]
    | false => simp [Ty.settled_of_not_isVar hv, Kind.isAlt]
  simp [chosenHeight, hk]

/-- The family settles from every state that has grown from `s`: on all types over the set once a
further variable is bound, and before that on types whose heights stay under the measure `D`. -/
structure Handles (F : Filter ι) (R : ι → Searches) (V : Finset Nat) (s : Subst) (D : Nat) :
    Prop where
  unify : ∀ s₁ a b, Grown V s s₁ → a.Over V → b.Over V →
  (Calm V s s₁ → 2 * max (s₁.apply a).height (s₁.apply b).height + 1 < D) →
    Settles F (fun i => (R i).unify a b) s₁
    (Post V s₁ (Low V s₁ (max (s₁.apply a).height (s₁.apply b).height)))
  choose : ∀ s₁ t, Grown V s s₁ → t.Over V → (Calm V s s₁ → 2 * (s₁.apply t).height < D) →
    Settles F (fun i => (R i).choose t) s₁ (Post V s₁ (Low V s₁ (chosenHeight (s₁.apply t))))

namespace Handles

variable {R : ι → Searches}

lemma unify_low (h : Handles F R V s D) (hg : Grown V s s₁) (ha : Low V s d a s₁)
    (hb : Low V s d b s₁)
    (hd : 2 * d + 1 < D) : Settles F (fun i => (R i).unify a b) s₁ (Post V s₁ (Low V s d)) := by
  have hcalm (hc : Calm V s s₁) : max (s₁.apply a).height (s₁.apply b).height ≤ d := by
    rw [ha.apply_eq hg hc, hb.apply_eq hg hc]
    simpa using ⟨ha.height_le hc, hb.height_le hc⟩
  refine (h.unify s₁ a b hg ha.vars_mem hb.vars_mem fun hc => ?_).mono fun r s₂ hr => ?_
  · have := hcalm hc
    omega
  · exact hr.mono fun t hg₂ ht => ht.of_later hg hg₂ hcalm

lemma choose_of (h : Handles F R V s D) (hg : Grown V s s₁) (ht : Low V s e t s₁) (he : 2 * e < D)
    (hd : Calm V s s₁ → chosenHeight t ≤ d) :
    Settles F (fun i => (R i).choose t) s₁ (Post V s₁ (Low V s d)) := by
  refine (h.choose s₁ t hg ht.vars_mem fun hc => ?_).mono fun r s₂ hr => ?_
  · have := ht.height_le hc
    rw [ht.apply_eq hg hc, Ty.height_settled]
    omega
  · refine hr.mono fun u hg₂ hu => hu.of_later hg hg₂ fun hc => ?_
    rw [ht.apply_eq hg hc, chosenHeight_settled]
    exact hd hc

lemma choose_low (h : Handles F R V s D) (hg : Grown V s s₁) (ht : Low V s d t s₁)
    (hd : 2 * d < D) : Settles F (fun i => (R i).choose t) s₁ (Post V s₁ (Low V s d)) :=
  h.choose_of hg ht hd fun hc => (chosenHeight_le t).trans (ht.height_le hc)

lemma choose_alt (h : Handles F R V s D) (hg : Grown V s s₁) (hne : ts ≠ [])
    (hts : ∀ t ∈ ts, Low V s d t s₁) (hd : 2 * (d + 1) < D) :
    Settles F (fun i => (R i).choose (.alt ts)) s₁ (Post V s₁ (Low V s d)) := by
  have hpos (hc : Calm V s s₁) : 1 ≤ d := by
    obtain ⟨t, ht⟩ := List.exists_mem_of_ne_nil ts hne
    exact (hts t ht).pos hc
  refine Ty.alt_induct (Q := fun t =>
    Settles F (fun i => (R i).choose t) s₁ (Post V s₁ (Low V s d))) hts
    (fun t ht halt p hp => ?_) (fun t ht => h.choose_low hg ht (by omega)) fun cands hc => ?_
  · exact (ht.mono (e := d + 1) (by omega)).param (Kind.isVar_eq_false_of_isAlt halt) hp
  · have hlow : Low V s (d + 1) (.detailed .alt "" (cands.map fun c => ("", c)) []) s₁ :=
      .of_params rfl (by simpa [Ty.params] using hc)
    refine h.choose_of hg hlow hd fun hc => ?_
    have := hlow.height_le hc
    have := hpos hc
    exact (if_pos (show Kind.alt.isAlt = true from rfl)).trans_le (by omega)

/-! ## The search around the parts -/

lemma course (h : Handles F R V s D) (hd : 2 * d + 1 < D) (he : d ≤ e) (hpos : 1 ≤ e) :
    Course F R (Grown V) (· ≠ .exhausted) s (Low V s d) (Low V s d) (Low V s e) where
  refl hg := .refl hg.within
  trans := .trans
  fails he := he
  raw_step := .grown
  part_step := .grown
  unify hg ha hb := h.unify_low hg ha hb hd
  choose hg ht := h.choose_low hg ht (by omega)
  whole_of_part ht := ht.mono fun _ => he
  optIf _ := Low.optIf_iff.2
  plain _ hctx _ := .plain (Kind.isVar_eq_false_of_isCtx hctx) fun _ => hpos

lemma binds (h : Handles F R V s D) (hd : 2 * (d + 1) < D) :
    Course.Binds F R (Grown V) (· ≠ .exhausted) s (Low V s d) (Low V s d)
    (Low V s (d + 1)) (Ty.Over V) fun v => v.kind.isVar ∧ s.get? v.kind.slot = none where
  toCourse := h.course (by omega) (by omega) (by omega)
  whole_step := .grown
  deopt := Low.deopt_iff.2
  param ht hctx _ := ht.param (Kind.isVar_eq_false_of_isCtx hctx)
  bare _ hctx := .plain (Kind.isVar_eq_false_of_isCtx hctx) (by simp)
  meet {a b _} _ _ _ _ _ _ := by
    have hk := Kind.isVar_family_and a.kind b.kind
    exact ⟨.plain hk (by simp),
      fun e he => .of_params (t := .around _ e) hk (by simpa [Ty.around, Ty.params] using he)⟩
  obj _ _ _ hqs := .of_params (t := .obj _ _) rfl fun q hq => (hqs q hq).1
  choose_alt hg hne hts := h.choose_alt hg hne hts hd
  choose_whole hg ht := h.choose_low hg ht hd
  over_whole ht := ht.vars_mem
  over_deopt := Ty.over_deopt.2
  over_alt ha hb := over_alt (by simp [ha, hb])
  over_merged _ ht hid := by
    obtain ⟨hvar, rfl⟩ : _ ∧ _ = _ := by simpa [Ty.varId?] using hid
    simpa [Ty.over_of_isVar] using (Ty.over_of_isVar hvar).1 ht
  assign hg hv ht := by
    refine (settles_bind hg.within hv ht).mono fun r s₂ hr => hr.mono fun _ _ hbound hfree w hw =>
      .of_not_calm hw fun hc => ?_
    rw [hc _ ((Ty.over_of_isVar hfree.1).1 hv) hfree.2] at hbound
    cases hbound

lemma unifyWith (hs : Within V s) (ha : a.Over V) (hb : b.Over V)
    (h : Handles F R V s (2 * max (s.apply a).height (s.apply b).height + 1)) :
    Settles F (fun i => Subst.unifyWith (R i) a b) s
    (Post V s (Low V s (max (s.apply a).height (s.apply b).height))) := by
  have hta : Low V s (max (s.apply a).height (s.apply b).height) (s.apply a) s :=
    (Low.apply hs ha).mono (by omega)
  have htb : Low V s (max (s.apply a).height (s.apply b).height) (s.apply b) s :=
    (Low.apply hs hb).mono (by omega)
  obtain ⟨d, hd⟩ : ∃ d, max (s.apply a).height (s.apply b).height = d + 1 := by
    have := (s.apply a).height_pos
    exact ⟨_, (Nat.sub_add_cancel (by omega : 1 ≤ max (s.apply a).height (s.apply b).height)).symm⟩
  rw [hd] at h hta htb ⊢
  refine (h.binds (by omega)).unifyWith (.refl hs) ha hb hta htb fun t hv => ⟨hv, ?_⟩
  exact hs.sound.get?_of_mem_outerVars_apply (t := t) (by simp [Ty.outerVars_of_isVar hv])

lemma chooseWith (hs : Within V s) (ht : t.Over V) (h : Handles F R V s (2 * (s.apply t).height)) :
    Settles F (fun i => Subst.chooseWith (R i) t) s
    (Post V s (Low V s (chosenHeight (s.apply t)))) := by
  have hlow := Low.apply hs ht
  refine .get_bind ?_
  generalize s.apply t = u at h hlow ⊢
  obtain ⟨d, hd⟩ : ∃ d, u.height = d + 1 := ⟨_, (Nat.sub_add_cancel u.height_pos).symm⟩
  rw [hd] at h hlow
  have hparam (hv : u.kind.isVar = false) : ∀ p ∈ u.params, Low V s d p.2 s :=
    fun p hp => hlow.param hv hp
  refine .ite (fun halt => ?_) fun halt => .ite (fun _ => .pure ⟨.refl hs, ?_⟩) fun hv => ?_
  · have hmembers : ∀ c ∈ u.members, Low V s d c s := by
      rw [Ty.members, if_pos (by simp [halt])]
      exact List.forall_mem_map.2 (hparam (Kind.isVar_eq_false_of_isAlt halt))
    have hcourse := h.course (d := d) (e := max 1 d) (by omega) (by omega) (by omega)
    simpa [chosenHeight, halt, hd] using hcourse.foldCandidates _ none (.refl hs) hmembers (by simp)
  · simpa [chosenHeight, halt, hd] using hlow
  · replace hv : u.kind.isVar = false := by simpa using hv
    have hcourse := h.course (d := d) (e := d + 1) (by omega) (by omega) (by omega)
    have hmap := hcourse.mapParams (.refl hs) (hparam hv) fun qs s₂ hnames hqs =>
      .of_params (by simpa using hv) ?_
    · simpa [chosenHeight, halt, hd] using hmap
    · rw [Ty.params_withParams (by simpa using congrArg List.length hnames)]
      exact hqs

end Handles

end Subst

end Resolvent
