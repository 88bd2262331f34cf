import Resolvent.Proofs.Ty.Normal

/-!
# The order of fields

Comparing objects first looks whether the types are equal, which tells the order of fields apart,
and otherwise walks the fields of the destination and looks each of them up.
-/

namespace Resolvent.Ty

variable {f : Ty → Ty → Fit} {s d e t : Ty} {ps qs : List Param} {n : String}

/-! ## Other orders -/

lemma walked_perm (h : qs.Perm ps) (acc : Fit) (found : Nat) :
    walked f s qs acc found = walked f s ps acc found := by
  rw [walked, h.any_eq, sum, (h.filterMap _).foldl_eq acc, count, h.countP_eq]
  rfl

lemma field?_withParams (hnodup : (s.params.map fun p => Param.key p.1).Nodup)
    (h : ps.Perm s.params) (n : String) : (s.withParams ps).field? n = s.field? n := by
  have hps : (s.withParams ps).params = ps := params_withParams h.length_eq
  have hnodup' : ((s.withParams ps).params.map fun p => Param.key p.1).Nodup := by
    rw [hps]
    exact (h.map _).nodup_iff.2 hnodup
  refine Option.ext fun q => ?_
  rw [field?_eq_some_iff hnodup', field?_eq_some_iff hnodup, hps, h.mem_iff]

lemma isDetailed_withParams (t : Ty) (ps : List Param) :
    (t.withParams ps).isDetailed = t.isDetailed := by
  unfold withParams
  split <;> rfl

lemma name_withParams (t : Ty) (ps : List Param) : (t.withParams ps).name = t.name := by
  unfold withParams
  split <;> rfl

lemma fitObjects_perm (hnodup : (s.params.map fun p => Param.key p.1).Nodup)
    (hps : ps.Perm s.params) (hqs : qs.Perm d.params) :
    fitObjects f (s.withParams ps) (d.withParams qs) = fitObjects f s d := by
  have hfield := field?_withParams hnodup hps
  have hmissing : missing (s.withParams ps) = missing s :=
    funext fun p => by rw [missing, missing, hfield]
  have hadded : added f (s.withParams ps) = added f s :=
    funext fun p => by rw [added, added, hfield]
  have hwalked (acc : Fit) (found : Nat) : walked f (s.withParams ps) qs acc found =
    walked f s d.params acc found := by
    rw [← walked_perm hqs]
    simp only [walked, sum, count, hmissing, hadded, hfield]
  cases hs : s.isDetailed with
  | false => simp [fitObjects, isDetailed_withParams, hs]
  | true =>
    cases hd : d.isDetailed with
    | false => simp [fitObjects, isDetailed_withParams, hs, hd]
    | true =>
      rw [fitObjects_eq (by rwa [isDetailed_withParams]) (by rwa [isDetailed_withParams]),
        fitObjects_eq hs hd,
        params_withParams hqs.length_eq, params_withParams hps.length_eq, hps.length_eq,
        name_withParams, name_withParams, hwalked]

/-! ## Comparing objects -/

lemma fitObjects_self (hdetail : t.isDetailed) (hapart : Param.apart (t.params.map (·.1))) :
    fitObjects fit t t = .same := by
  obtain ⟨hkeys, hnodup⟩ := Param.apart_iff.1 hapart
  rw [(normal_fitObjects normal_fit t t).eq_same_iff, reaches_fitObjects (by decide)]
  refine ⟨hdetail, fun _ p hp => ?_, fun _ => ⟨hdetail, rfl, le_rfl⟩⟩
  rw [Found, field?_congr (hkeys p hp), (field?_eq_some_iff hnodup).2 ⟨hp, rfl⟩]
  dsimp only
  rw [fit_self]
  decide

lemma fitPlain_obj (hs : s.kind.isKnown ∧ s.kind.isObj) (hd : d.kind.isKnown ∧ d.kind.isObj) :
    fitPlain f s d = if equal s d then .same else fitObjects f s d := by
  have hkind {t : Ty} (ht : t.kind.isKnown ∧ t.kind.isObj) :
      t.kind.isCtx = false ∧ t.isAny = false ∧ t.isVoid = false ∧ t.kind.isCont := by
    have hbits := Kind.bits_of_isObj ht.1 ht.2
    simp only [Kind.isCtx, isAny, Kind.isAny, isVoid, Kind.isVoid, Kind.isCont, Kind.meets, hbits]
    decide
  simp [fitPlain, hkind hs, hkind hd, fitContainers_of_isObj hs hd]

lemma kind_withParams (h : t.kind.isElemCont = false) (ps : List Param) :
    (t.withParams ps).kind = t.kind := by
  unfold withParams
  split
  · exact if_neg (Bool.eq_false_iff.1 h)
  · rfl

lemma deopt_withParams (t : Ty) (ps : List Param) :
    (t.withParams ps).deopt = t.deopt.withParams ps := by
  cases t with
  | plain k => rfl
  | detailed k name qs cs =>
    cases qs with
    | nil => cases ps <;> rfl
    | cons q qs =>
      cases ps with
      | nil => rfl
      | cons p ps => exact congrArg (fun k =>
        detailed k name (p :: ps) cs) (apply_ite Kind.deopt _ _ _)

lemma selfFree_withParams (h : ps.Perm t.params) (hself : t.selfFree) :
    (t.withParams ps).selfFree := by
  obtain ⟨hkind, hparts⟩ := selfFree_iff.1 hself
  rw [selfFree_iff, params_withParams h.length_eq, Kind.isSelf, bits_withParams]
  exact ⟨hkind, fun p hp => hparts p (h.mem_iff.1 hp)⟩

lemma withParams_of_plain (h : t.isDetailed = false) (ps : List Param) : t.withParams ps = t := by
  cases t with
  | plain k => rfl
  | detailed => cases h

lemma fitPlain_perm (hs : s.kind.isKnown ∧ s.kind.isObj) (hd : d.kind.isKnown ∧ d.kind.isObj)
    (hself : s.selfFree ∧ d.selfFree) (hnodup : (s.params.map fun p => Param.key p.1).Nodup)
    (hps : ps.Perm s.params) (hqs : qs.Perm d.params)
    (hkeys : s.name = d.name → s.params.Perm d.params → ∀ p ∈ d.params, Param.key (Param.key p.1) =
    Param.key p.1) : fitPlain fit (s.withParams ps) (d.withParams qs) = fitPlain fit s d := by
  have hkind {t : Ty} (ht : t.kind.isKnown ∧ t.kind.isObj) (ps : List Param) :
      (t.withParams ps).kind.isKnown ∧ (t.withParams ps).kind.isObj := by
    rwa [kind_withParams (by simp [Kind.isElemCont, ht.2])]
  rw [fitPlain_obj (hkind hs ps) (hkind hd qs), fitPlain_obj hs hd, fitObjects_perm hnodup hps hqs]
  by_cases hequal : equal s d
  · obtain rfl := eq_of_equal hself.1 hself.2 hequal
    cases hdetail : s.isDetailed with
    | false => rw [withParams_of_plain hdetail, withParams_of_plain hdetail]
    | true =>
      have hapart : Param.apart (s.params.map (·.1)) :=
        Param.apart_iff.2 ⟨hkeys rfl (.refl _), hnodup⟩
      rw [fitObjects_self hdetail hapart, ite_self, ite_self]
  · by_cases hequal' : equal (s.withParams ps) (d.withParams qs)
    · have heq := eq_of_equal (selfFree_withParams hps hself.1)
        (selfFree_withParams hqs hself.2) hequal'
      have hname : s.name = d.name := by rw [← name_withParams s ps, heq, name_withParams]
      have hparams : ps = qs := by
        rw [← params_withParams hps.length_eq, heq, params_withParams hqs.length_eq]
      subst hparams
      cases hdetail : s.isDetailed with
      | false =>
        have hdetail' : d.isDetailed = false := by
          rw [← isDetailed_withParams d ps, ← heq, isDetailed_withParams, hdetail]
        rw [withParams_of_plain hdetail, withParams_of_plain hdetail'] at hequal'
        exact absurd hequal' hequal
      | true =>
        have hkeys' : ∀ p ∈ ps, Param.key (Param.key p.1) = Param.key p.1 :=
          fun p hp => hkeys hname (hps.symm.trans hqs) p (hqs.mem_iff.1 hp)
        have hapart : Param.apart ((s.withParams ps).params.map (·.1)) := by
          rw [params_withParams hps.length_eq]
          exact Param.apart_iff.2 ⟨hkeys', (hps.map _).nodup_iff.2 hnodup⟩
        have hsame : fitObjects fit s d = .same := by
          rw [← fitObjects_perm hnodup hps hqs, ← heq]
          exact fitObjects_self (by rwa [isDetailed_withParams]) hapart
        rw [hsame, ite_self, ite_self]
    · rw [if_neg hequal, if_neg hequal']

lemma fitContainers_perm (hobj : s.kind.isObj) (he : e.kind.isObj = false)
    (hps : ps.Perm s.params) : fitContainers f (s.withParams ps) e = fitContainers f s e := by
  have hkind : (s.withParams ps).kind = s.kind :=
    kind_withParams (by simp [Kind.isElemCont, hobj]) ps
  have hfold (elem : Ty) (kinds : Fit) :
    ps.foldl (fun acc p => acc.weaker ((f p.2 elem).adding Fit.elemBit)) kinds =
        s.params.foldl (fun acc p => acc.weaker ((f p.2 elem).adding Fit.elemBit)) kinds :=
    hps.foldl_eq' (fun _ _ _ _ acc => Fit.weaker_right_comm acc _ _) kinds
  unfold fitContainers
  simp only [hkind, hobj, he, Bool.and_false, Bool.false_eq_true, ↓reduceIte,
    params_withParams hps.length_eq, hfold]

lemma fitPlain_perm_of_not_isObj (hobj : s.kind.isObj) (he : e.kind.isObj = false)
    (hself : e.kind.isSelf = false)
    (hps : ps.Perm s.params) : fitPlain f (s.withParams ps) e = fitPlain f s e := by
  have hkind : (s.withParams ps).kind = s.kind :=
    kind_withParams (by simp [Kind.isElemCont, hobj]) ps
  have hequal {t : Ty} (ht : t.kind.isObj) : equal t e = false := by
    refine equal_eq_false hself fun heq => ?_
    rw [heq, he] at ht
    cases ht
  have hany : (s.withParams ps).isAny = s.isAny := congrArg Kind.isAny hkind
  have hvoid : (s.withParams ps).isVoid = s.isVoid := congrArg Kind.isVoid hkind
  have hkinds : fitKinds (s.withParams ps) e = fitKinds s e := by
    rw [fitKinds, fitKinds, hkind, isDetailed_withParams]
  rw [fitPlain, fitPlain, hequal hobj, hequal (hkind ▸ hobj), fitContainers_perm hobj he hps,
    hkinds, hany, hvoid, hkind]

lemma fit_congr {s' d' : Ty} (hs : s'.kind = s.kind) (hd : d'.kind = d.kind)
    (h : fitPlain fit s'.deopt d'.deopt = fitPlain fit s.deopt d.deopt) : fit s' d' = fit s d := by
  have hany : s'.isAny = s.isAny ∧ d'.isAny = d.isAny :=
    ⟨congrArg Kind.isAny hs, congrArg Kind.isAny hd⟩
  have hopt : s'.isOpt = s.isOpt ∧ d'.isOpt = d.isOpt :=
    ⟨congrArg Kind.optional hs, congrArg Kind.optional hd⟩
  rw [fit_eq, fit_eq, fitWith, fitWith, h, hany.1, hany.2, hopt.1, hopt.2]

/-- The fields of objects that are read, without self references and with different keys, may be
permuted in the source and in the destination. Only if the destination has the same name and the
same fields it matters whether the keys are keys: these are the objects that are equal in one order.
To other destinations than objects the source compares alike in every order. -/
theorem fit_perm {src : String} (hread : parse src = .ok s) (hobj : s.kind.isObj)
    (hself : s.selfFree)
    (hnodup : (s.params.map fun p => Param.key p.1).Nodup) (hps : ps.Perm s.params) :
    (∀ src' d qs, parse src' = .ok d → d.kind.isObj → d.selfFree → qs.Perm d.params →
      (s.name = d.name → s.params.Perm d.params → ∀ p ∈ d.params, Param.key (Param.key p.1) =
      Param.key p.1) → fit (s.withParams ps) (d.withParams qs) = fit s d) ∧
    ∀ e : Ty, e.kind.isObj = false → e.kind.isSelf = false → fit (s.withParams ps) e = fit s e := by
  have hkind {t : Ty} (ht : t.kind.isObj) (ps : List Param) : (t.withParams ps).kind = t.kind :=
    kind_withParams (by simp [Kind.isElemCont, ht]) ps
  constructor
  · intro src' d qs hread' hobj' hself' hqs hkeys
    refine fit_congr (hkind hobj ps) (hkind hobj' qs) ?_
    have hknown {src : String} {t : Ty} (ht : parse src = .ok t) :=
      (notated_of_parse ht).regular.deopt.isKnown
    rw [deopt_withParams, deopt_withParams]
    refine fitPlain_perm ⟨hknown hread, by rwa [isObj_deopt]⟩ ⟨hknown hread', by rwa [isObj_deopt]⟩
      ?_ ?_ ?_ ?_ ?_
    · rw [selfFree_deopt, selfFree_deopt]
      exact ⟨hself, hself'⟩
    · rwa [params_deopt]
    · rwa [params_deopt]
    · rwa [params_deopt]
    · rwa [name_deopt, name_deopt, params_deopt, params_deopt]
  · intro e he hself'
    refine fit_congr (hkind hobj ps) rfl ?_
    rw [deopt_withParams]
    refine fitPlain_perm_of_not_isObj ?_ ?_ ?_ ?_
    · rwa [isObj_deopt]
    · rwa [isObj_deopt]
    · rwa [isSelf_deopt]
    · rwa [params_deopt]

/-- An object whose fields stand in another order is not equal to the object, but compares as the
same. -/
theorem fit_perm_swapped : let s : Ty := .obj "" [("x", .int), ("y?", .list .str)]
    let s' : Ty := .obj "" [("y?", .list .str), ("x", .int)]
    equal s' s = false ∧ fit s' s = .same ∧ fit s' (.keyr .any) = fit s (.keyr .any) := by
  intro s s'
  have hread : parse "(obj +x int +y? list|str)" = .ok s := by cbv
  have hswap : [("y?", Ty.list .str), ("x", .int)].Perm s.params := List.Perm.swap _ _ _
  have hapart : Param.apart (s.params.map (·.1)) := by cbv
  obtain ⟨hkeys, hnodup⟩ := Param.apart_iff.1 hapart
  obtain ⟨hobjects, hothers⟩ := fit_perm hread (by decide) (by decide) hnodup hswap
  have hsame : fit s' s = fit s s :=
    hobjects _ s s.params hread (by decide) (by decide) (.refl _) fun _ _ => hkeys
  exact ⟨by cbv, hsame.trans (fit_self s), hothers (.keyr .any) (by decide) (by decide)⟩

/-- The key of a name with two marks is no key, and an object does not find the field of such a name
in itself. -/
theorem fit_order_marked : let s : Ty := .obj "" [("x??", .int), ("y", .int)]
    let s' : Ty := .obj "" [("y", .int), ("x??", .int)]
    parse "(obj +x?? int +y int)" = .ok s ∧ parse "(obj +y int +x?? int)" = .ok s' ∧
      fit s s = .same ∧ fit s' s = Fit.widen.adding Fit.elemBit := by
  intro s s'
  exact ⟨by cbv, by cbv, fit_self s, by cbv⟩

end Resolvent.Ty
