import Resolvent.Proofs.Subst.Concrete
import Mathlib

/-!
# Unifying again

The common type of two concrete types absorbs the second one: unifying the two gives the common type
back.
-/

namespace Resolvent

open Solve Ty

def Param.Keyed (name : String) : Prop := key (key name) = key name

namespace Subst

variable {s s' : Subst} {a b e j t u : Ty} {ps qs : List Param} {N M : String → Prop} {k : Kind}

/-! ## The parts of unifying -/

def unifyKinds (unify : Ty → Ty → Solve Ty) (choose : Ty → Solve Ty) (a b : Ty) : Solve Ty :=
  if a.kind.isCont && b.kind.isCont then unifyContainers unify choose a b else ofExcept (join a b)

/-- Unifies types that are neither variables nor alternatives nor optional. -/
def unifyBare (unify : Ty → Ty → Solve Ty) (choose : Ty → Solve Ty) (a b : Ty) : Solve Ty :=
  if equal a b then pure a else if a.isAny then pure b else if b.isAny then pure a
  else if a.kind.isRef || a.kind.isSch then throw (.unresolvedReference a)
  else if b.kind.isRef || b.kind.isSch then throw (.unresolvedReference b)
  else if a.kind.isCtx || b.kind.isCtx then throw (.noCommonType a b)
  else unifyKinds unify choose a b

lemma unifyPlain_eq (unify : Ty → Ty → Solve Ty) (choose : Ty → Solve Ty) (a b : Ty) :
    unifyPlain unify choose a b = if equal a b then pure a else do
      return (← unifyBare unify choose a.deopt b.deopt).optIf (a.isOpt || b.isOpt) := by
  have hite {c : Prop} [Decidable c] (m m' : Solve Ty) (f : Ty → Solve Ty) :
      ((if c then m else m') >>= f) = if c then m >>= f else m' >>= f := apply_ite (· >>= f) c m m'
  unfold unifyPlain unifyBare unifyKinds
  simp only [hite]
  rfl

/-- Unifies the elements of containers and puts a container of the kind around. -/
def unifyElems (unify : Ty → Ty → Solve Ty) (k : Kind) : Option Ty → Option Ty → Solve Ty
  | some ea, some eb => do ofExcept (cont k (← unify ea eb))
  | some e, none => ofExcept (cont k e)
  | none, some e => ofExcept (cont k e)
  | none, none => return .plain k

lemma unifyContainers_eq (unify : Ty → Ty → Solve Ty) (choose : Ty → Solve Ty) (a b : Ty) :
    unifyContainers unify choose a b =
      if (Kind.meet a.kind b.kind).bits == 0 then throw (.noCommonType a b)
      else if (Kind.meet a.kind b.kind).isObj then unifyObjects unify a b
      else (do unifyElems unify (Kind.meet a.kind b.kind) (← elemOf choose a) (← elemOf
        choose b)) := rfl

lemma unifyBare_cases {unify : Ty → Ty → Solve Ty} {choose : Ty → Solve Ty}
    (h : (unifyBare unify choose a b).exec s = (.ok j, s')) :
    (equal a b ∧ j = a) ∨ (a.isAny ∧ j = b) ∨ (b.isAny ∧ j = a) ∨
      (equal a b = false ∧ a.isAny = false ∧ b.isAny = false ∧ a.kind.isCtx = false ∧
      b.kind.isCtx = false ∧ (unifyKinds unify choose a b).exec s = (.ok j, s')) := by
  unfold unifyBare at h
  split at h
  · next heq => exact .inl ⟨heq, by cases h; rfl⟩
  · next heq =>
    split at h
    · next ha => exact .inr (.inl ⟨ha, by cases h; rfl⟩)
    · next ha =>
      split at h
      · next hb => exact .inr (.inr (.inl ⟨hb, by cases h; rfl⟩))
      · next hb =>
        split at h <;> [cases h; split at h <;> [cases h; split at h <;> [cases h; skip]]]
        next hctx =>
        obtain ⟨hca, hcb⟩ := Bool.or_eq_false_iff.1 (Bool.eq_false_iff.2 hctx)
        exact .inr (.inr (.inr ⟨Bool.eq_false_iff.2 heq, Bool.eq_false_iff.2 ha,
          Bool.eq_false_iff.2 hb, hca, hcb, h⟩))

lemma unifyBare_of_not_any (unify : Ty → Ty → Solve Ty) (choose : Ty → Solve Ty)
    (heq : equal a b = false)
    (ha : a.isAny = false) (hb : b.isAny = false) (hca : a.kind.isCtx = false)
    (hcb : b.kind.isCtx = false) : unifyBare unify choose a b = unifyKinds unify choose a b := by
  obtain ⟨_, _, haref, hasch, _⟩ := Kind.not_marked hca
  obtain ⟨_, _, hbref, hbsch, _⟩ := Kind.not_marked hcb
  simp only [unifyBare, heq, ha, hb, hca, hcb, haref, hasch, hbref, hbsch, Bool.or_self,
    Bool.false_eq_true, ↓reduceIte]

/-! ## The parts of a concrete type -/

lemma Sound.exec_unify_same (h : s.Sound) (ht : t.Ground) : (unify t t).exec s = (.ok t, s) := by
  rw [h.exec_unify, unifyWith, exec_get_bind, h.apply_ground ht]
  simp [equal_self]

lemma Sound.exec_unify_concrete (h : s.Sound) (ha : a.Concrete M false) (hb : b.Concrete N false) :
    (unify a b).exec s = (unifyPlain unify choose a b).exec s := by
  cases heq : equal a b with
  | true =>
    obtain rfl := (ha.ground.equal_iff hb.ground).1 heq
    rw [h.exec_unify_same ha.ground, unifyPlain_eq, if_pos heq, exec_pure]
  | false =>
    exact h.exec_unify_ground ha.ground hb.ground (h.exec_choose_concrete ha)
      (h.exec_choose_concrete hb) heq

lemma Sound.height_elemOf (h : s.Sound) (ht : t.Ground) (hctx : t.kind.isCtx = false)
    (he : (elemOf choose t).exec s = (.ok (some e), s)) : e.height < t.height := by
  obtain ⟨d, hd⟩ : ∃ d, t.height = d + 1 := ⟨t.height - 1, by have := t.height_pos; omega⟩
  have hs := h.within_support [t]
  have hlow : Low (s.support [t]) s (d + 1) t s := by
    have hlow := Low.apply hs (over_support (show t ∈ [t] by simp))
    rwa [h.apply_ground ht, hd] at hlow
  have hpost := (settles_along_iff.1 (((handles _ s _).binds (Nat.lt_succ_self _)).elemOf
    (.refl hs) hctx hlow)).1
  change Post _ s _ ((elemOf choose t).exec s).1 ((elemOf choose t).exec s).2 at hpost
  rw [he] at hpost
  have := (hpost.2 e rfl).height_le (.refl _ _)
  omega

/-! ## Absorbing -/

/-- Unifying `a` and `b` leaves the substitution as it is, and unifying what it gives with `b` gives
it back. -/
def Absorbs (s : Subst) (a b : Ty) : Prop :=
  ∀ j s', (unify a b).exec s = (.ok j, s') → s' = s ∧ (unify j b).exec s = (.ok j, s)

lemma join_meet (ha : a.kind.isKnown) (hb : b.kind.isKnown)
    (hne : (a.kind.family == b.kind.family) = false)
    (hvoid : (Kind.meet a.kind b.kind).isVoid = false) (hknown : (Kind.meet a.kind b.kind).isKnown)
    (hany : (Kind.meet a.kind b.kind).isAny = false) :
    join (.plain (Kind.meet a.kind b.kind)) b = .ok (.plain (Kind.meet a.kind b.kind)) := by
  have hspec := Kind.not_isSpec_meet ha hb hne hknown
  have hmeet : (⟨(Kind.meet a.kind b.kind).family &&& b.kind.family, false, 0⟩ : Kind) =
    Kind.meet a.kind b.kind := Kind.meet_right rfl
  have hkind (k : Kind) : (plain k).kind = k := rfl
  simp only [join, hkind, hmeet]
  split
  · simp only [hspec]
    rfl
  · simp [hvoid, hknown, hany, isDetailed]

lemma elem?_around (hk : k.isElemCont) (e : Ty) : (around k e).elem? = some e :=
  if_pos (show (k.around e.kind).isElemCont from hk)

lemma eq_around_of_cont (h : cont k e = .ok j) : j = around k e := by
  unfold cont at h
  dsimp only at h
  split at h
  · cases h
  · cases h
    rfl

lemma Sound.absorbs_unifyElems (h : s.Sound) (hk : k.isElemCont) (hopt : k.optional = false)
    {ea eb : Option Ty}
    (heb : ∀ u, eb = some u → u.Ground) (ih : ∀ x y, ea = some x → eb = some y → s.Absorbs x y)
    (hj : (unifyElems unify k ea eb).exec s = (.ok j, s)) :
    j.kind.bits = k.bits ∧ j.isOpt = false ∧ (unifyElems unify k j.elem? eb).exec s =
    (.ok j, s) := by
  have haround {e : Ty} (hcont : cont k e = .ok j)
      (he : (unifyElems unify k (some e) eb).exec s = (.ok j, s)) :
      j.kind.bits = k.bits ∧ j.isOpt = false ∧ (unifyElems unify k j.elem? eb).exec s =
      (.ok j, s) := by
    obtain rfl := eq_around_of_cont hcont
    exact ⟨rfl, hopt, by rwa [elem?_around hk]⟩
  rcases ea with _ | x <;> rcases eb with _ | y <;> unfold unifyElems at hj
  · obtain rfl : j = .plain k := by cases hj; rfl
    exact ⟨rfl, hopt, by simp [elem?, params, unifyElems]⟩
  · have hcont : cont k y = .ok j := by simpa [exec_ofExcept] using hj
    exact haround hcont
      (exec_bind_eq_ok.2 ⟨y, s, h.exec_unify_same (heb y rfl), by rw [exec_ofExcept, hcont]⟩)
  · have hcont : cont k x = .ok j := by simpa [exec_ofExcept] using hj
    refine haround hcont ?_
    rw [unifyElems, exec_ofExcept, hcont]
  · obtain ⟨e, s₁, he, hcont⟩ := exec_bind_eq_ok.1 hj
    obtain ⟨rfl, hagain⟩ := ih x y rfl rfl e s₁ he
    replace hcont : cont k e = .ok j := by simpa [exec_ofExcept] using hcont
    exact haround hcont (exec_bind_eq_ok.2 ⟨e, s₁, hagain, by rw [exec_ofExcept, hcont]⟩)

lemma field?_key_of_field? {n m : String} (hkeyed : ∀ p ∈ b.params, Param.Keyed p.1)
    (hfield : b.field? (Param.key n) = some (m, u)) : b.field? (Param.key m) = some (m, u) := by
  have hkey : Param.key m = Param.key (Param.key n) := by simpa using List.find?_some hfield
  have hm : Param.key (Param.key m) = Param.key (Param.key n) :=
    (hkeyed (m, u) (List.mem_of_find?_eq_some hfield)).trans hkey
  simpa only [field?, hm] using hfield

lemma absorbs_unifyFields (hb : b.Concrete Param.Keyed false) (hobj : b.kind.isObj)
    (ih : ∀ p ∈ ps, ∀ q ∈ b.params, s.Absorbs p.2 q.2)
    (hqs : (unifyFields unify b ps).exec s = (.ok qs, s)) :
    (unifyFields unify b qs).exec s = (.ok qs, s) := by
  induction ps generalizing qs with
  | nil =>
    cases hqs
    rfl
  | cons p ps ihps =>
    obtain ⟨n, t⟩ := p
    have hrest' : ∀ p ∈ ps, ∀ q ∈ b.params, s.Absorbs p.2 q.2 := fun p hp => ih p (by simp [hp])
    rw [unifyFields] at hqs
    split at hqs
    · next m u hfield =>
      have hmem : (m, u) ∈ b.params := List.mem_of_find?_eq_some hfield
      obtain ⟨typ, s₁, htyp, hqs⟩ := exec_bind_eq_ok.1 hqs
      obtain ⟨rfl, htyp'⟩ := ih (n, t) (by simp) (m, u) hmem typ s₁ htyp
      obtain ⟨rest, s₂, hrest, hcons⟩ := exec_bind_eq_ok.1 hqs
      obtain ⟨rfl, rfl⟩ : (if Param.isOpt n then m else n, typ) :: rest = qs ∧ s₂ = s₁ := by
        simpa using hcons
      have hname : b.field? (Param.key (if Param.isOpt n then m else n)) = some (m, u) := by
        split
        · exact field?_key_of_field? (fun p hp => hb.field hobj hp) hfield
        · exact hfield
      have hagain : (if Param.isOpt (if Param.isOpt n then m else n) then m else if Param.isOpt n
        then m else n) = if Param.isOpt n then m else n := by
        by_cases hn : Param.isOpt n <;> simp [hn]
      rw [unifyFields, hname]
      refine exec_bind_eq_ok.2 ⟨typ, _, htyp', exec_bind_eq_ok.2 ⟨rest, _, ihps hrest' hrest, ?_⟩⟩
      rw [hagain, exec_pure]
    · exact ihps hrest' hqs

lemma absorbs_unifyObjects (hb : b.Concrete Param.Keyed false) (hobj : b.kind.isObj)
    (ih : ∀ p ∈ a.params, ∀ q ∈ b.params, s.Absorbs p.2 q.2)
    (hj : (unifyObjects unify a b).exec s = (.ok j, s)) :
    j.kind = .obj ∧ (unifyObjects unify j b).exec s = (.ok j, s) := by
  unfold unifyObjects at hj
  split at hj
  · cases hj
    exact ⟨rfl, rfl⟩
  · next hdetailed =>
    obtain ⟨fields, s₁, hfields, hpure⟩ := exec_bind_eq_ok.1 hj
    obtain ⟨rfl, rfl⟩ : obj (if a.name = b.name then a.name else "") fields = j ∧ s₁ = s := by
      simpa using hpure
    have hb' : b.isDetailed := by
      simp only [Bool.or_eq_true, Bool.not_eq_true', not_or, Bool.not_eq_false] at hdetailed
      exact hdetailed.2
    refine ⟨rfl, ?_⟩
    have hname : (if (if a.name = b.name then a.name else "") = b.name
      then (if a.name = b.name then a.name else "") else "") =
        if a.name = b.name then a.name else "" := by
      by_cases hn : a.name = b.name <;> simp [hn]
    unfold unifyObjects
    rw [show ∀ n, (obj n fields).isDetailed = true from fun _ => rfl, hb']
    refine exec_bind_eq_ok.2 ⟨fields, _, absorbs_unifyFields hb hobj ih hfields, ?_⟩
    exact congrArg (fun n => (Except.ok (obj n fields), _)) hname

section

variable (h : s.Sound) (ha : a.Concrete (fun _ => True) false) (hb : b.Concrete Param.Keyed false)
  (ih : ∀ x y : Ty, x.height < a.height → x.Concrete (fun _ => True) false →
    y.Concrete Param.Keyed false → s.Absorbs x y)
include h ha hb ih

lemma Sound.absorbs_unifyContainers (hctx : a.kind.isCtx = false ∧ b.kind.isCtx = false)
    (hca : a.kind.isCont)
    (hcb : b.kind.isCont) (hj : (unifyContainers unify choose a b).exec s = (.ok j, s)) :
    (Kind.meet a.kind b.kind).isCont ∧ j.kind.bits = (Kind.meet a.kind b.kind).bits ∧
    j.isOpt = false ∧ (unifyContainers unify choose j b).exec s = (.ok j, s) := by
  rw [unifyContainers_eq] at hj
  split at hj
  · cases hj
  · next hne =>
    obtain ⟨-, hcont, hobj⟩ :=
      Kind.meet_cont ha.spelled.known hb.spelled.known hca hcb (Bool.eq_false_iff.2 hne)
    split at hj
    · next hisObj =>
      obtain ⟨hao, hbo⟩ := hobj hisObj
      have hparts : ∀ p ∈ a.params, ∀ q ∈ b.params, s.Absorbs p.2 q.2 := fun p hp q hq =>
        ih p.2 q.2 (height_lt_of_mem_params ha.ground.isVar_eq hp) (ha.part hp) (hb.part hq)
      obtain ⟨hkind, hagain⟩ :=
        absorbs_unifyObjects hb (Kind.isObj_of_meet (Kind.meet_comm _ _ ▸ hisObj)) hparts hj
      have hbits : j.kind.bits = (Kind.meet a.kind b.kind).bits := by
        rw [hkind, Kind.meet, Kind.family, Kind.family, hao, hbo]
        decide
      refine ⟨hcont, hbits, by rw [isOpt, hkind]; rfl, ?_⟩
      rwa [unifyContainers_eq, Kind.meet_right hbits, if_neg hne, if_pos hisObj]
    · next hisObj =>
      have hk : (Kind.meet a.kind b.kind).isElemCont := by
        simp [Kind.isElemCont, hcont, Bool.eq_false_iff.2 hisObj]
      have hkeeps_a := keeps_iff.2 (h.spells.unifies.elemOf rfl hctx.1 ha)
      have hkeeps_b := keeps_iff.2 (h.spells.unifies.elemOf rfl hctx.2 hb)
      obtain ⟨ea, s₁, hea, hj⟩ := exec_bind_eq_ok.1 hj
      obtain rfl := hkeeps_a.state_eq hea
      obtain ⟨eb, s₂, heb, hj⟩ := exec_bind_eq_ok.1 hj
      obtain rfl := hkeeps_b.state_eq heb
      have hconcrete_a : ∀ u, ea = some u → u.Concrete (fun _ => True) false :=
        hkeeps_a.2 ea (by rw [hea])
      have hconcrete_b : ∀ u, eb = some u → u.Concrete Param.Keyed false :=
        hkeeps_b.2 eb (by rw [heb])
      have helems : ∀ x y, ea = some x → eb = some y → s₂.Absorbs x y := by
        rintro x y rfl rfl
        exact ih x y (h.height_elemOf ha.ground hctx.1 hea) (hconcrete_a x rfl) (hconcrete_b y rfl)
      obtain ⟨hbits, hopt, hagain⟩ :=
        h.absorbs_unifyElems hk rfl (fun u hu => (hconcrete_b u hu).ground) helems hj
      have helemOf : elemOf choose j = pure j.elem? := by
        rw [elemOf, show j.kind.isObj =
          (Kind.meet a.kind b.kind).isObj by rw [Kind.isObj, Kind.meets, hbits]; rfl]
        simp [hisObj]
      refine ⟨hcont, hbits, hopt, ?_⟩
      rw [unifyContainers_eq, Kind.meet_right hbits, if_neg hne, if_neg hisObj, helemOf]
      exact exec_bind_eq_ok.2 ⟨j.elem?, _, rfl, exec_bind_eq_ok.2 ⟨eb, _, heb, hagain⟩⟩

lemma Sound.absorbs_unifyKinds (hopt : a.isOpt = false ∧ b.isOpt = false)
    (hany : a.isAny = false ∧ b.isAny = false) (hctx : a.kind.isCtx = false ∧ b.kind.isCtx = false)
    (hj : (unifyKinds unify choose a b).exec s = (.ok j, s)) :
    j.isOpt = false ∧ j.isAny = false ∧ j.kind.isCtx = false ∧
    (j = b ∨ (unifyKinds unify choose j b).exec s = (.ok j, s)) := by
  have hmeet : (Kind.meet a.kind b.kind).isCtx = false := Kind.isCtx_family_and a.kind b.kind
  cases hcont : a.kind.isCont && b.kind.isCont with
  | true =>
    obtain ⟨hca, hcb⟩ := Bool.and_eq_true_iff.1 hcont
    rw [unifyKinds, if_pos hcont] at hj
    obtain ⟨hcommon, hbits, hoptj, hagain⟩ := h.absorbs_unifyContainers ha hb ih hctx hca hcb hj
    have hcj : j.kind.isCont := by rwa [Kind.isCont, Kind.meets, hbits]
    refine ⟨hoptj, Kind.isAny_of_isCont hcj, by rwa [Kind.isCtx, Kind.meets, hbits], .inr ?_⟩
    rwa [unifyKinds, if_pos (Bool.and_eq_true_iff.2 ⟨hcj, hcb⟩)]
  | false =>
    rw [unifyKinds, if_neg (by simp [hcont]), exec_ofExcept] at hj
    have hjoin : join a b = .ok j := congrArg Prod.fst hj
    have hagain (hcj : (j.kind.isCont && b.kind.isCont) = false) (hjb : join j b = .ok j) :
        (unifyKinds unify choose j b).exec s = (.ok j, s) := by
      rw [unifyKinds, if_neg (by simp [hcj]), exec_ofExcept, hjb]
    obtain ⟨hfamily, hspec, rfl⟩ | ⟨hfamily, hvoid, hknown, hanyk, rfl | rfl | rfl⟩ :=
      join_cases hjoin
    · refine ⟨rfl, hany.1, hctx.1, .inr (hagain hcont ?_)⟩
      exact (if_pos hfamily).trans (if_neg (Bool.eq_false_iff.1 hspec))
    · exact ⟨hopt.1, hany.1, hctx.1, .inr (hagain hcont hjoin)⟩
    · exact ⟨hopt.2, hany.2, hctx.2, .inl rfl⟩
    · refine ⟨rfl, hanyk, hmeet,
        .inr (hagain ?_ (join_meet ha.spelled.known hb.spelled.known hfamily hvoid hknown hanyk))⟩
      rw [Bool.and_eq_false_iff] at hcont ⊢
      refine .inl (Bool.eq_false_iff.2 fun hc => ?_)
      obtain ⟨hca, hcb⟩ := Kind.isCont_of_meet ha.spelled.known hb.spelled.known hc
      simp [hca, hcb] at hcont

lemma Sound.absorbs_unifyBare (hopt : a.isOpt = false ∧ b.isOpt = false)
    (hj : (unifyBare unify choose a b).exec s = (.ok j, s)) :
    j.isOpt = false ∧ (unifyBare unify choose j b).exec s = (.ok j, s) := by
  have hsame : (unifyBare unify choose b b).exec s = (.ok b, s) := by
    rw [unifyBare, if_pos (equal_self b), exec_pure]
  obtain ⟨-, rfl⟩ | ⟨-, rfl⟩ | ⟨-, rfl⟩ | ⟨-, hany₁, hany₂, hctx₁, hctx₂, hkinds⟩ :=
    unifyBare_cases hj
  · exact ⟨hopt.1, hj⟩
  · exact ⟨hopt.2, hsame⟩
  · exact ⟨hopt.1, hj⟩
  · obtain ⟨hoptj, hanyj, hctxj, rfl | hagain⟩ :=
      h.absorbs_unifyKinds ha hb ih hopt ⟨hany₁, hany₂⟩ ⟨hctx₁, hctx₂⟩ hkinds
    · exact ⟨hoptj, hsame⟩
    · refine ⟨hoptj, ?_⟩
      cases heq : equal j b with
      | true => rw [unifyBare, if_pos heq, exec_pure]
      | false => rwa [unifyBare_of_not_any unify choose heq hanyj hany₂ hctxj hctx₂]

end

@[simp] lemma isOpt_deopt (t : Ty) : t.deopt.isOpt = false := by
  rw [isOpt, deopt, kind_setKind]
  rfl

lemma deopt_optIf (ht : t.isOpt = false) (o : Bool) : (t.optIf o).deopt = t := by
  have hkind : t.kind.withOptional false = t.kind :=
    congrArg (fun o => { t.kind with optional := o }) ht.symm
  have hset : t.setKind t.kind = t := by cases t <;> rfl
  calc (t.optIf o).deopt = t.setKind (t.kind.withOptional false) := by cases t <;> cases o <;> rfl
    _ = t := by rw [hkind, hset]

lemma isOpt_optIf (ht : t.isOpt = false) (o : Bool) : (t.optIf o).isOpt = o := by
  cases o with
  | false => exact ht
  | true => simp [optIf, opt, isOpt, Kind.opt, Kind.withOptional]

lemma Sound.absorbs_unifyPlain (h : s.Sound) (ha : a.Concrete (fun _ => True) false)
    (hb : b.Concrete Param.Keyed false)
    (ih : ∀ x y : Ty, x.height < a.height → x.Concrete (fun _ => True) false →
    y.Concrete Param.Keyed false → s.Absorbs x y)
    (hj : (unifyPlain unify choose a b).exec s = (.ok j, s)) :
    (unifyPlain unify choose j b).exec s = (.ok j, s) := by
  rw [unifyPlain_eq] at hj
  split at hj
  · next heq =>
    cases hj
    rw [unifyPlain_eq, if_pos heq, exec_pure]
  · obtain ⟨res, s₁, hres, hpure⟩ := exec_bind_eq_ok.1 hj
    obtain ⟨rfl, rfl⟩ : res.optIf (a.isOpt || b.isOpt) = j ∧ s₁ = s := by simpa using hpure
    obtain ⟨hopt, hagain⟩ :=
      h.absorbs_unifyBare ha.deopt hb.deopt (by simpa using ih) ⟨isOpt_deopt a, isOpt_deopt b⟩ hres
    rw [unifyPlain_eq, deopt_optIf hopt, isOpt_optIf hopt]
    split
    · rw [exec_pure]
    · refine exec_bind_eq_ok.2 ⟨res, _, hagain, ?_⟩
      simp

lemma Sound.absorbs_unify (h : s.Sound) (ha : a.Concrete (fun _ => True) false)
    (hb : b.Concrete Param.Keyed false) : s.Absorbs a b := by
  induction hn : a.height using Nat.strong_induction_on generalizing a b with
  | h n ihn =>
    intro j s' hj
    have hkeeps := h.spells.unify ha (hb.mono (fun _ _ => trivial) id)
    obtain rfl := hkeeps.state_eq hj
    have hjc : j.Concrete (fun _ => True) false := hkeeps.2 j (by rw [hj])
    rw [h.exec_unify_concrete ha hb] at hj
    rw [h.exec_unify_concrete hjc hb]
    refine ⟨rfl, h.absorbs_unifyPlain ha hb (fun x y hx hxc hyc => ?_) hj⟩
    exact ihn x.height (hn ▸ hx) hxc hyc rfl

lemma Sound.absorbs_alternatives (h : s.Sound) (ha : a.Concrete (fun _ => True) true)
    (hb : b.Concrete Param.Keyed true) : s.Absorbs a b := by
  intro j s' hj
  have hweak : b.Concrete (fun _ => True) true := hb.mono (fun _ _ => trivial) id
  have hkeeps := h.spells.unify ha hweak
  obtain rfl := hkeeps.state_eq hj
  refine ⟨rfl, ?_⟩
  cases heq : equal a b with
  | true =>
    obtain rfl := (ha.ground.equal_iff hb.ground).1 heq
    rw [h.exec_unify_same ha.ground] at hj
    cases hj
    exact h.exec_unify_same ha.ground
  | false =>
    rw [h.exec_unify_chosen ha.ground hb.ground heq] at hj
    obtain ⟨ca, s₁, hca, hj⟩ := exec_bind_eq_ok.1 hj
    obtain rfl := (h.spells.choose ha).state_eq hca
    obtain ⟨cb, s₂, hcb, hj⟩ := exec_bind_eq_ok.1 hj
    obtain rfl := (h.spells.choose hb).state_eq hcb
    have hca' : ca.Concrete (fun _ => True) false := (h.spells.choose ha).2 ca (by rw [hca])
    have hcb' : cb.Concrete Param.Keyed false := (h.spells.choose hb).2 cb (by rw [hcb])
    have hjc : j.Concrete (fun _ => True) false :=
      (keeps_iff.2 (h.spells.unifies.unifyPlain rfl hca' (hcb'.mono (fun _ _ => trivial) id))).2 j
        (by rw [hj])
    rw [← h.exec_unify_concrete hca' hcb'] at hj
    have hagain := (h.absorbs_unify hca' hcb' j s₂ hj).2
    rw [h.exec_unify_concrete hjc hcb'] at hagain
    cases hjb : equal j b with
    | true =>
      obtain rfl := (hjc.ground.equal_iff hb.ground).1 hjb
      exact h.exec_unify_same hjc.ground
    | false =>
      rw [h.exec_unify_chosen hjc.ground hb.ground hjb]
      exact exec_bind_eq_ok.2 ⟨j, s₂, h.exec_choose_concrete hjc,
        exec_bind_eq_ok.2 ⟨cb, s₂, hcb, hagain⟩⟩

/-- Unifying types that can be written, without variables and self references, leaves the
substitution as it is. Unifying the common type with itself gives it back, and so does unifying it
with the second type if the keys of the fields are keys. -/
theorem unify_absorbs (ops : List Op) {src src' : String} (ha : parse src = .ok a)
    (hb : parse src' = .ok b) (hvars : a.vars = [] ∧ b.vars = []) (hself : a.selfFree ∧ b.selfFree)
    (hj : (unify a b).exec (after ops) = (.ok j, s')) :
    s' = after ops ∧ (unify j j).exec (after ops) = (.ok j, after ops) ∧
    ((unify j b).exec (after ops)).2 = after ops ∧
      ((∀ n ∈ b.fieldNames, Param.key (Param.key n) = Param.key n) → (unify j b).exec (after ops) =
      (.ok j, after ops)) := by
  have h := sound_after ops
  have hac : a.Concrete (fun _ => True) true :=
    (notated_of_parse ha).concrete hvars.1 hself.1 fun _ _ => trivial
  have hbc : b.Concrete (fun _ => True) true :=
    (notated_of_parse hb).concrete hvars.2 hself.2 fun _ _ => trivial
  have hkeeps := h.spells.unify hac hbc
  obtain rfl := hkeeps.state_eq hj
  have hjc : j.Concrete (fun _ => True) true := hkeeps.2 j (by rw [hj])
  refine ⟨rfl, h.exec_unify_same hjc.ground, (h.spells.unify hjc hbc).1.symm, fun hkeys => ?_⟩
  exact (h.absorbs_alternatives hac ((notated_of_parse hb).concrete hvars.2 hself.2 hkeys) j _ hj).2

def line : Ty :=
  .obj "p" [("x", .list .int), ("Y?", .detailed .alt "" [("", .int), ("", .real)] []),
    ("w", .obj "" [("k", .str)])]

def area : Ty := (obj "p" [("X", .obj "" [("u", .int), ("v", .real)]), ("y", .num),
    ("q", .plain .func)]).opt

def extent : Ty := (obj "p" [("x", .idxr .num), ("y", .num)]).opt

theorem unify_absorbs_extent :
    parse "(obj \"p\" +x list|int +Y? (alt int real) +w (obj +k str))" = .ok line ∧
    parse "(obj? \"p\" +X (obj +u int +v real) +y num +q func)" = .ok area ∧
    (∀ n ∈ area.fieldNames, Param.key (Param.key n) = Param.key n) ∧
    (unify line area).exec (after [.newVar []]) = (.ok extent, after [.newVar []]) ∧
    (unify extent extent).exec (after [.newVar []]) = (.ok extent, after [.newVar []]) ∧
    (unify extent area).exec (after [.newVar []]) = (.ok extent, after [.newVar []]) := by
  have hline : parse "(obj \"p\" +x list|int +Y? (alt int real) +w (obj +k str))" = .ok line := by
    cbv
  have harea : parse "(obj? \"p\" +X (obj +u int +v real) +y num +q func)" = .ok area := by cbv
  have hkeys : ∀ n ∈ area.fieldNames, Param.key (Param.key n) = Param.key n := by decide
  have hunify : (unify line area).exec (after [.newVar []]) = (.ok extent, after [.newVar []]) := by
    cbv
  obtain ⟨-, hself, -, hagain⟩ :=
    unify_absorbs [.newVar []] hline harea ⟨by decide, by decide⟩ ⟨by decide, by decide⟩ hunify
  exact ⟨hline, harea, hkeys, hunify, hself, hagain hkeys⟩

/-- A name with two optional marks has a key that is no key: its field is lost when the objects are
unified again. -/
theorem unify_forgets_marked : ∃ a b j,
    parse "(obj +x??? int)" = .ok a ∧ parse "(obj +x?? int +z int)" = .ok b ∧
    (unify a b).exec {} = (.ok j, {}) ∧ j.text = "(obj +x?? int)" ∧
    ∃ k, (unify j b).exec {} = (.ok k, {}) ∧ k.text = "(obj)" :=
  ⟨.obj "" [("x???", .int)], .obj "" [("x??", .int), ("z", .int)],
    .obj "" [("x??", .int)], by cbv, by cbv, by cbv, by cbv, .obj "" [], by cbv, by cbv⟩

end Subst

end Resolvent
