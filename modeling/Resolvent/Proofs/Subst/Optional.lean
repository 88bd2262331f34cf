import Resolvent.Proofs.Subst.Absorb

/-!
# The optional mark

The mark is taken off before kinds are compared and put back on the common type.
-/

namespace Resolvent

open List

namespace Ty

variable {a b t : Ty} {ts cands : List Ty}

/-- An alternative without candidates. -/
def isHollow (t : Ty) : Bool := t.kind.isAlt && t.params.isEmpty

lemma kind_eq_of_equal (h : equal a b) : a.kind = b.kind := by
  obtain ⟨fuel, hfuel⟩ : ∃ fuel, equalBudget a b = fuel + 1 :=
    ⟨equalBudget a b - 1, (Nat.sub_add_cancel (Nat.mul_pos (Nat.succ_pos _) (Nat.succ_pos _))).symm⟩
  have htop (t : Ty) : (⟨t, [], []⟩ : Site).enclosing? t.kind.slot = none := by
    unfold Site.enclosing?
    split
    · rfl
    · simp
  by_contra hne
  suffices equal a b = false by simp [this] at h
  unfold equal equal?
  rw [hfuel]
  by_cases hself : a.kind.isSelf = b.kind.isSelf
  · rw [equalAt_of_same_isSelf hself, if_neg hne]
    rfl
  · rw [equalAt]
    cases ha : a.kind.isSelf <;> cases hb : b.kind.isSelf <;> simp_all

lemma isOpt_eq_of_equal (h : equal a b) : a.isOpt = b.isOpt :=
  congrArg Kind.optional (kind_eq_of_equal h)

lemma isOpt_optIf_eq (t : Ty) (o : Bool) : (t.optIf o).isOpt = (t.isOpt || o) := by
  cases o <;> simp [optIf, opt, isOpt, Kind.opt, Kind.withOptional]

@[simp] lemma isOpt_withParams (t : Ty) (ps : List Param) : (t.withParams ps).isOpt = t.isOpt := by
  unfold withParams
  split
  · simp only [isOpt]
    split <;> rfl
  · rfl

lemma subset_foldl_addCandidate (cands ts : List Ty) : cands ⊆ ts.foldl addCandidate cands := by
  induction ts generalizing cands with
  | nil => exact Subset.refl _
  | cons u ts ih =>
    refine Subset.trans (fun c hc => ?_) (ih (addCandidate cands u))
    unfold addCandidate
    split
    · exact hc
    · exact mem_append_left _ hc

lemma exists_equal_mem_foldl_addCandidate (cands : List Ty) (h : t ∈ ts) :
    ∃ c ∈ ts.foldl addCandidate cands, equal c t := by
  induction ts generalizing cands with
  | nil => simp at h
  | cons u ts ih =>
    rcases mem_cons.1 h with rfl | h
    · have hadded : ∃ c ∈ addCandidate cands t, equal c t := by
        unfold addCandidate
        split
        · next hany => simpa using hany
        · exact ⟨t, by simp, equal_self t⟩
      obtain ⟨c, hc, heq⟩ := hadded
      exact ⟨c, subset_foldl_addCandidate _ ts hc, heq⟩
    · exact ih _ h

/-- The mark of a type that is neither a variable nor an alternative of nothing. -/
def keepsOpt (t : Ty) : Bool := t.isOpt && !t.kind.isVar && !t.isHollow

lemma keepsOpt_iff : t.keepsOpt ↔ t.isOpt ∧ t.kind.isVar = false ∧ t.isHollow = false := by
  simp [keepsOpt, and_assoc]

/-- Whether the type is optional or, if it is an alternative, one of its candidates is. -/
def offersOpt (t : Ty) : Bool := t.isOpt || t.kind.isAlt && t.members.any (·.isOpt)

end Ty

namespace Subst

open Solve Ty

variable {s s' : Subst} {a b j t u v : Ty} {ts : List Ty} {r : Searches}

/-! ## Applying -/

lemma Sound.isOpt_apply (h : s.Sound) (ht : t.isOpt) : (s.apply t).isOpt := by
  rw [h.apply_eq]
  cases hv : t.kind.isVar with
  | true =>
    rw [substVars_of_isVar hv]
    split
    · simp [isOpt_optIf_eq, ht]
    · exact ht
  | false => rwa [substVars_of_not_isVar hv, isOpt_withParams]

lemma Sound.apply_of_not_isVar (h : s.Sound) (hv : t.kind.isVar = false) :
    s.apply t = t.withParams (t.params.map fun p => (p.1, s.apply p.2)) := by
  rw [h.apply_eq, substVars_of_not_isVar hv]
  simp only [← h.apply_eq]

lemma Sound.isHollow_apply (h : s.Sound) (hv : t.kind.isVar = false) :
    (s.apply t).isHollow = t.isHollow := by
  rw [isHollow, isHollow, h.apply_of_not_isVar hv, Kind.isAlt, Kind.isAlt]
  simp

lemma Sound.apply_of_isAlt (h : s.Sound) (halt : t.kind.isAlt) :
    (s.apply t).kind.isAlt ∧ (s.apply t).members = t.members.map s.apply := by
  have happly := h.apply_of_not_isVar (Kind.isVar_eq_false_of_isAlt halt)
  have halt' : (s.apply t).kind.isAlt := by rwa [happly, Kind.isAlt, bits_withParams]
  refine ⟨halt', ?_⟩
  simp only [members, halt, halt', Bool.or_true, ↓reduceIte]
  rw [happly, params_withParams_map, List.map_map, List.map_map]
  rfl

lemma Sound.offersOpt_apply_alt (h : s.Sound) (hu : u ∈ ts.flatMap candidates) (hopt : u.isOpt) :
    (s.apply (.alt ts)).offersOpt := by
  obtain ⟨c, hc, heq⟩ : ∃ c ∈ flat ts, equal c u := exists_equal_mem_foldl_addCandidate [] hu
  have hcopt : c.isOpt := (isOpt_eq_of_equal heq).trans hopt
  rw [alt_eq]
  split
  · next t hflat =>
    obtain rfl : c = t := by simpa [hflat] using hc
    simp [offersOpt, h.isOpt_apply hcopt]
  · obtain ⟨halt, hmembers⟩ :=
      h.apply_of_isAlt (t := .detailed .alt "" ((flat ts).map fun c => ("", c)) []) rfl
    have hmem : c ∈ (detailed .alt "" ((flat ts).map fun c => ("", c)) []).members := by
      have halt : Kind.alt.isAlt := rfl
      simpa [members, kind, params, halt] using hc
    have hany : (s.apply (detailed .alt "" ((flat ts).map fun c => ("", c)) [])).members.any
      (·.isOpt) := by
      rw [hmembers]
      exact List.any_eq_true.2 ⟨s.apply c, List.mem_map_of_mem hmem, h.isOpt_apply hcopt⟩
    rw [offersOpt, halt, hany]
    simp

/-! ## Choosing -/

lemma isOpt_foldCandidates {acc : Option Ty} (hsome : ts ≠ [] ∨ acc.isSome)
    (h : (foldCandidates r.unify r.choose true ts acc).exec s = (.ok u, s')) : u.isOpt := by
  have hmark (t : Ty) : (t.optIf true).isOpt := by simp [isOpt_optIf_eq]
  induction ts generalizing s acc with
  | nil =>
    obtain ⟨t, rfl⟩ : ∃ t, acc = some t := by simpa [Option.isSome_iff_exists] using hsome
    cases h
    exact hmark t
  | cons t ts ih =>
    obtain ⟨c, s₁, _, h⟩ := exec_bind_eq_ok.1 h
    cases acc with
    | none => exact ih (.inr rfl) h
    | some prev =>
      obtain ⟨res, s₂, _, h⟩ := exec_bind_eq_ok.1 h
      split at h
      · exact ih (.inr rfl) h
      · cases h
        exact hmark _
      · cases h
        exact hmark _
      · cases h

lemma isOpt_chooseWith (hopt : (s.apply t).offersOpt) (hhollow : (s.apply t).isHollow = false)
    (h : (chooseWith r t).exec s = (.ok u, s')) : u.isOpt := by
  rw [chooseWith, exec_get_bind] at h
  generalize s.apply t = w at hopt hhollow h
  dsimp only at h
  split at h
  · next halt =>
    have hmark : (w.isOpt || w.members.any (·.isOpt)) = true := by
      simpa [offersOpt, halt] using hopt
    have hne : w.members ≠ [] := by simpa [isHollow, halt, members] using hhollow
    rw [hmark] at h
    exact isOpt_foldCandidates (.inl hne) h
  · next halt =>
    have hw : w.isOpt := by simpa [offersOpt, halt] using hopt
    split at h
    · cases h
      exact hw
    · obtain ⟨ps, s₁, _, h⟩ := exec_bind_eq_ok.1 h
      cases h
      rwa [isOpt_withParams]

lemma Sound.isOpt_choose (hs : s.Sound) (hopt : (s.apply t).offersOpt)
    (hhollow : (s.apply t).isHollow = false) (h : (choose t).exec s = (.ok u, s')) : u.isOpt := by
  rw [hs.exec_choose] at h
  exact isOpt_chooseWith hopt hhollow h

lemma Sound.isOpt_choose_of_keepsOpt (hs : s.Sound) (hopt : t.keepsOpt)
    (h : (choose t).exec s = (.ok u, s')) : u.isOpt := by
  obtain ⟨hmark, hv, hhollow⟩ := keepsOpt_iff.1 hopt
  refine hs.isOpt_choose ?_ (by rwa [hs.isHollow_apply hv]) h
  simp [offersOpt, hs.isOpt_apply hmark]

/-! ## Unifying -/

lemma isOpt_unifyObjects (h : (unifyObjects r.unify a b).exec s = (.ok j, s')) :
    j.isOpt = false := by
  unfold unifyObjects at h
  split at h
  · cases h
    rfl
  · obtain ⟨fields, s₁, _, h⟩ := exec_bind_eq_ok.1 h
    cases h
    rfl

lemma isOpt_unifyElems {k : Kind} {ea eb : Option Ty} (hk : k.optional = false)
    (h : (unifyElems r.unify k ea eb).exec s = (.ok j, s')) : j.isOpt = false := by
  have haround {e : Ty} {s₁ : Subst}
    (hcont : (ofExcept (cont k e) : Solve Ty).exec s₁ = (.ok j, s')) : j.isOpt = false := by
    rw [exec_ofExcept] at hcont
    rw [eq_around_of_cont (congrArg Prod.fst hcont)]
    exact hk
  rcases ea with _ | x <;> rcases eb with _ | y <;> unfold unifyElems at h
  · cases h
    exact hk
  · exact haround h
  · exact haround h
  · obtain ⟨e, s₁, _, h⟩ := exec_bind_eq_ok.1 h
    exact haround h

lemma isOpt_unifyContainers (h : (unifyContainers r.unify r.choose a b).exec s = (.ok j, s')) :
    j.isOpt = false := by
  rw [unifyContainers_eq] at h
  split at h
  · cases h
  · split at h
    · exact isOpt_unifyObjects h
    · obtain ⟨ea, s₁, _, h⟩ := exec_bind_eq_ok.1 h
      obtain ⟨eb, s₂, _, h⟩ := exec_bind_eq_ok.1 h
      exact isOpt_unifyElems rfl h

lemma isOpt_unifyBare (ha : a.isOpt = false) (hb : b.isOpt = false)
    (h : (unifyBare r.unify r.choose a b).exec s = (.ok j, s')) : j.isOpt = false := by
  obtain ⟨-, rfl⟩ | ⟨-, rfl⟩ | ⟨-, rfl⟩ | ⟨-, -, -, -, -, h⟩ := unifyBare_cases h
  · exact ha
  · exact hb
  · exact ha
  · unfold unifyKinds at h
    split at h
    · exact isOpt_unifyContainers h
    · rw [exec_ofExcept] at h
      obtain ⟨-, -, rfl⟩ | ⟨-, -, -, -, rfl | rfl | rfl⟩ := join_cases (congrArg Prod.fst h)
      · rfl
      · exact ha
      · exact hb
      · rfl

lemma isOpt_unifyPlain (h : (unifyPlain r.unify r.choose a b).exec s = (.ok j, s')) :
    j.isOpt = (a.isOpt || b.isOpt) := by
  rw [unifyPlain_eq] at h
  split at h
  · next heq =>
    cases h
    simp [isOpt_eq_of_equal heq]
  · obtain ⟨res, s₁, hres, h⟩ := exec_bind_eq_ok.1 h
    cases h
    simp [isOpt_optIf_eq, isOpt_unifyBare (isOpt_deopt a) (isOpt_deopt b) hres]

lemma isOpt_bindVar (h : (bindVar r.choose v t).exec s = (.ok j, s')) : j.isOpt = t.isOpt := by
  have hgiven {s₁ : Subst} {w : Ty} (h : (do bind v w; return t : Solve Ty).exec s₁ = (.ok j, s')) :
    j.isOpt = t.isOpt := by
    obtain ⟨_, s₂, _, h⟩ := exec_bind_eq_ok.1 h
    cases h
    rfl
  unfold bindVar at h
  split at h
  · split at h
    · cases h
      rfl
    · obtain ⟨_, s₁, _, h⟩ := exec_bind_eq_ok.1 h
      cases h
      simp [isOpt_optIf_eq]
  · generalize (if v.isOpt then t.deopt else t) = w at h
    split at h
    · exact hgiven h
    · obtain ⟨c, s₁, _, h⟩ := exec_bind_eq_ok.1 h
      split at h
      · exact hgiven h
      · obtain ⟨_, s₂, hthrow, _⟩ := exec_bind_eq_ok.1 h
        cases hthrow

lemma unifyWith_cases (h : (unifyWith r a b).exec s = (.ok j, s')) :
    (equal (s.apply a) (s.apply b) ∧ j = s.apply a) ∨
    ((s.apply a).kind.isVar ∧ (bindVar r.choose (s.apply a) (s.apply b)).exec s = (.ok j, s')) ∨
    ((s.apply a).kind.isVar = false ∧ (s.apply b).kind.isVar ∧
    (bindVar r.choose (s.apply b) (s.apply a)).exec s = (.ok j, s')) ∨
    ((s.apply a).kind.isVar = false ∧ (s.apply b).kind.isVar = false ∧ ∃ ca cb s₁ s₂ s₃,
      (r.choose (s.apply a)).exec s = (.ok ca, s₁) ∧ (r.choose (s.apply b)).exec s₁ = (.ok cb, s₂) ∧
      (unifyPlain r.unify r.choose ca cb).exec s₂ = (.ok j, s₃)) := by
  have hnote {c : Prop} [Decidable c] {v t w : Ty} {s₁ : Subst} {m : Solve Ty}
      (h : (if c then remember v t w >>= fun _ => m else m).exec s₁ = (.ok j, s')) :
      ∃ s₂, m.exec s₂ = (.ok j, s') := by
    split at h
    · obtain ⟨_, s₂, _, h⟩ := exec_bind_eq_ok.1 h
      exact ⟨s₂, h⟩
    · exact ⟨s₁, h⟩
  rw [unifyWith, exec_get_bind] at h
  dsimp only at h
  split at h
  · next heq =>
    cases h
    exact .inl ⟨heq, rfl⟩
  · split at h
    · next ha => exact .inr (.inl ⟨ha, h⟩)
    · next ha =>
      split at h
      · next hb => exact .inr (.inr (.inl ⟨Bool.eq_false_iff.2 ha, hb, h⟩))
      · next hb =>
        obtain ⟨ca, s₁, hca, h⟩ := exec_bind_eq_ok.1 h
        obtain ⟨cb, s₂, hcb, h⟩ := exec_bind_eq_ok.1 h
        obtain ⟨res, s₃, hres, h⟩ := exec_bind_eq_ok.1 h
        obtain ⟨s₄, h⟩ := hnote h
        obtain ⟨s₅, h⟩ := hnote h
        cases h
        exact .inr (.inr (.inr ⟨Bool.eq_false_iff.2 ha, Bool.eq_false_iff.2 hb, ca, cb, s₁, s₂, s₃,
          hca, hcb, hres⟩))

lemma Sound.isOpt_unify (hs : s.Sound) (hopt : (s.apply a).keepsOpt ∨ (s.apply b).keepsOpt)
    (h : (unify a b).exec s = (.ok j, s')) : j.isOpt := by
  have hmark {t : Ty} (ht : t.keepsOpt) : t.isOpt := (keepsOpt_iff.1 ht).1
  have hvar {t : Ty} (hv : t.kind.isVar) (ht : t.keepsOpt) : False := by
    simp [(keepsOpt_iff.1 ht).2.1] at hv
  rw [hs.exec_unify] at h
  obtain ⟨heq, rfl⟩ | ⟨ha, h⟩ | ⟨-, hb, h⟩ | ⟨-, -, ca, cb, s₁, s₂, s₃, hca, hcb, h⟩ :=
    unifyWith_cases h
  · rcases hopt with ha | hb
    · exact hmark ha
    · exact (isOpt_eq_of_equal heq).trans (hmark hb)
  · rw [isOpt_bindVar h]
    exact hmark (hopt.resolve_left (hvar ha))
  · rw [isOpt_bindVar h]
    exact hmark (hopt.resolve_right (hvar hb))
  · rw [isOpt_unifyPlain h, Bool.or_eq_true]
    rcases hopt with ha | hb
    · exact .inl (hs.isOpt_choose_of_keepsOpt ha hca)
    · exact .inr ((hs.of_choose hca).isOpt_choose_of_keepsOpt hb hcb)

lemma Sound.isOpt_unify_var (hs : s.Sound) (h : (unify a b).exec s = (.ok j, s')) :
    ((s.apply a).kind.isVar → j.isOpt = (s.apply b).isOpt) ∧
      ((s.apply a).kind.isVar = false → (s.apply b).kind.isVar → j.isOpt = (s.apply a).isOpt) := by
  rw [hs.exec_unify] at h
  obtain ⟨heq, rfl⟩ | ⟨ha, h⟩ | ⟨ha, hb, h⟩ | ⟨ha, hb, -⟩ := unifyWith_cases h
  · exact ⟨fun _ => isOpt_eq_of_equal heq, fun _ _ => rfl⟩
  · exact ⟨fun _ => isOpt_bindVar h, fun hna => by simp [ha] at hna⟩
  · exact ⟨fun hva => by simp [ha] at hva, fun _ _ => isOpt_bindVar h⟩
  · exact ⟨fun hva => by simp [ha] at hva, fun _ hvb => by simp [hb] at hvb⟩

/-- Unifying gives an optional type if one of the two, with bound variables replaced, is optional
and neither a variable nor an alternative of nothing; what it gives for a variable has the mark of
the other type and no more. Choosing from an alternative gives an optional type if one of its
candidates is optional, where the candidates of an alternative in the list count and its own mark
does not; only an alternative of nothing has nothing optional to give. -/
theorem search_keeps_optional (ops : List Op) (a b : Ty) (ts : List Ty) :
    (∀ r s', (unify a b).exec (after ops) = (.ok r, s') →
      (((after ops).apply a).keepsOpt ∨ ((after ops).apply b).keepsOpt → r.isOpt) ∧
      (((after ops).apply a).kind.isVar → r.isOpt = ((after ops).apply b).isOpt) ∧
      (((after ops).apply a).kind.isVar = false → ((after ops).apply b).kind.isVar →
        r.isOpt = ((after ops).apply a).isOpt)) ∧
    ((∃ t ∈ ts, ∃ c ∈ t.candidates, c.isOpt) → ((after ops).apply (.alt ts)).isHollow = false →
      ∀ u s', (choose (.alt ts)).exec (after ops) = (.ok u, s') → u.isOpt) := by
  have hs := sound_after ops
  constructor
  · intro r s' h
    exact ⟨fun hopt => hs.isOpt_unify hopt h, hs.isOpt_unify_var h⟩
  · rintro ⟨t, ht, c, hc, hopt⟩ hhollow u s' h
    have hc : c ∈ ts.flatMap candidates := List.mem_flatMap.2 ⟨t, ht, hc⟩
    exact hs.isOpt_choose (hs.offersOpt_apply_alt hc hopt) hhollow h

/-- An optional list of integers and a list of reals; a real and an optional integer in an
alternative. -/
theorem search_keeps_optional_list : ((after [.newVar []]).apply (Ty.list .int).opt).keepsOpt ∧
    (unify (Ty.list .int).opt (.list .real)).exec (after [.newVar []]) =
    (.ok (Ty.list .num).opt, after [.newVar []]) ∧ (Ty.list .num).opt.isOpt ∧
    ((after [.newVar []]).apply (.alt [.real, .alt [.str, Ty.int.opt]])).isHollow = false ∧
    (choose (.alt [.real, .alt [.str, Ty.int.opt]])).exec (after [.newVar []]) =
    (.ok Ty.any.opt, after [.newVar []]) ∧ Ty.any.opt.isOpt := by
  have hkeeps : ((after [.newVar []]).apply (Ty.list .int).opt).keepsOpt := by cbv
  have hunify : (unify (Ty.list .int).opt (.list .real)).exec (after [.newVar []]) =
      (.ok (Ty.list .num).opt, after [.newVar []]) := by cbv
  have hhollow : ((after [.newVar []]).apply (.alt [.real, .alt [.str, Ty.int.opt]])).isHollow =
    false := by cbv
  have hchoose : (choose (.alt [.real, .alt [.str, Ty.int.opt]])).exec (after [.newVar []]) =
      (.ok Ty.any.opt, after [.newVar []]) := by cbv
  have hnested : (Ty.alt [.str, Ty.int.opt]).candidates = [.str, Ty.int.opt] := by cbv
  have hcand : ∃ t ∈ [Ty.real, .alt [.str, Ty.int.opt]], ∃ c ∈ t.candidates, c.isOpt :=
    ⟨.alt [.str, Ty.int.opt], by simp, Ty.int.opt, by simp [hnested], rfl⟩
  have hkept := search_keeps_optional [.newVar []] (Ty.list .int).opt (.list .real) [.real,
    .alt [.str, Ty.int.opt]]
  exact ⟨hkeeps, hunify, (hkept.1 _ _ hunify).1 (.inl hkeeps), hhollow, hchoose,
    hkept.2 hcand hhollow _ _ hchoose⟩

/-- The mark of an optional variable is lost, and so is that of an optional alternative in another
one. -/
theorem search_forgets_optional : ((after [.newVar []]).apply (Ty.var 1 []).opt).isOpt ∧
    ((unify (Ty.var 1 []).opt .int).exec (after [.newVar []])).1 = .ok .int ∧ Ty.int.isOpt = false ∧
    ∃ t, parse "(alt? int real)" = .ok t ∧ t.isOpt ∧ t.vars = [] ∧
      (choose (.alt [t, .num])).exec {} = (.ok .num, {}) ∧ Ty.num.isOpt = false :=
  ⟨by cbv, by cbv, rfl, .detailed Kind.alt.opt "" [("", .int), ("", .real)] [], by cbv,
    rfl, by cbv, by cbv, rfl⟩

end Subst

end Resolvent
