import Resolvent.Proofs.Subst.Above
import Resolvent.Proofs.Subst.Depth
import Resolvent.Proofs.Ty.Orderly

/-!
# Widening

A type widens to another one if its values can be used there as they are.
-/

namespace Resolvent

open List Option

/-! ## Direct results -/

namespace Fit

/-- Values can be used where the destination is expected, without a check or a conversion. -/
def isDirect (f : Fit) : Bool := f.level ≥ equalLevel

lemma isDirect_iff (f : Fit) : f.isDirect ↔ f.Reaches 4 := by
  rw [isDirect, decide_eq_true_eq]
  rfl

end Fit

/-! ## Families -/

namespace Kind

variable {j k : Kind}

lemma meets_of_family {mask : UInt32} (hmask : ~~~ctxMask &&& mask = mask)
    (h : j.family &&& k.family = k.family) (hk : k.meets mask) : j.meets mask := by
  rw [meets_iff_family hmask] at hk ⊢
  intro hj
  rw [← h, UInt32.and_comm j.family, UInt32.and_assoc, hj, UInt32.and_zero] at hk
  exact hk rfl

lemma family_ne_zero_of_isCont (h : k.isCont) : k.family ≠ 0 := by
  intro hzero
  rw [isCont_iff_family, hzero] at h
  exact h rfl

lemma isVar_eq_false_of_isCont (h : k.isCont) : k.isVar = false := by
  rw [Bool.eq_false_iff]
  intro hv
  rw [isCont, meets, beq_iff_eq.1 hv] at h
  exact absurd h (by decide)

lemma bits_of_isObj (hk : k.isKnown) (h : k.isObj) : k.bits = obj.bits :=
  (by decide : ∀ k ∈ known, k.isObj → k.bits = obj.bits) k.bare (bare_mem_known hk) h

lemma family_of_isObj (hk : k.isKnown) (h : k.isObj) : k.family = obj.family := by
  rw [family, bits_of_isObj hk h]
  rfl

lemma isCont_of_isObj (hk : k.isKnown) (h : k.isObj) : k.isCont :=
  (by decide : ∀ k ∈ known, k.isObj → k.isCont) k.bare (bare_mem_known hk) h

lemma family_eq_of_isComposite (hj : j.isKnown) (hk : k.isKnown)
    (hctx : j.isCtx = false ∧ k.isCtx = false)
    (hcont : k.isCont = false) (hcomp : k.isComposite) (h : j.family &&& k.family = k.family) :
    j.family = k.family :=
  (by decide : ∀ j ∈ known, ∀ k ∈ known, j.isCtx = false ∧ k.isCtx = false → k.isCont = false →
    k.isComposite → j.family &&& k.family = k.family → j.family = k.family)
    j.bare (bare_mem_known hj) k.bare (bare_mem_known hk) hctx hcont hcomp h

lemma bits_eq_of_family (hj : j.isKnown) (hk : k.isKnown) (hctx : j.isCtx = false ∧ k.isCtx = false)
    (h : j.family = k.family) : j.bits = k.bits :=
  (by decide : ∀ j ∈ known, ∀ k ∈ known, j.isCtx = false ∧ k.isCtx = false → j.family = k.family →
    j.bits = k.bits) j.bare (bare_mem_known hj) k.bare (bare_mem_known hk) hctx h

end Kind

namespace Ty

variable {a b c t u : Ty} {n : String}

/-! ## The mark -/

lemma deopt_deopt (t : Ty) : t.deopt.deopt = t.deopt := by cases t <;> rfl

lemma name_deopt (t : Ty) : t.deopt.name = t.name := by cases t <;> rfl

lemma isAny_deopt (t : Ty) : t.deopt.isAny = t.isAny := by cases t <;> rfl

lemma isObj_deopt (t : Ty) : t.deopt.kind.isObj = t.kind.isObj := by cases t <;> rfl

lemma isSelf_deopt (t : Ty) : t.deopt.kind.isSelf = t.kind.isSelf := by cases t <;> rfl

lemma selfFree_deopt (t : Ty) : t.deopt.selfFree = t.selfFree := by cases t <;> rfl

lemma deopt_eq_of_equal (ha : a.selfFree) (hc : c.selfFree) (h : equal a.deopt c.deopt) :
    a.deopt = c.deopt :=
  eq_of_equal ((selfFree_deopt a).trans ha) ((selfFree_deopt c).trans hc) h

/-! ## Heads -/

structure Regular (t : Ty) : Prop where
  isKnown : t.kind.isKnown
  slot : t.isDetailed = false → t.kind.isCtx = false → t.kind.slot = 0
  isComposite : t.isDetailed → t.kind.isCtx = false → t.kind.isCont = false → t.kind.isComposite
  elem : t.kind.isElemCont → t.params.length ≤ 1

lemma Regular.deopt (h : t.Regular) : t.deopt.Regular := by
  cases t <;> exact ⟨h.isKnown, h.slot, h.isComposite, h.elem⟩

lemma Regular.optIf (h : t.Regular) (o : Bool) : (t.optIf o).Regular := by
  cases t <;> cases o <;> exact ⟨h.isKnown, h.slot, h.isComposite, h.elem⟩

lemma Regular.of_isCtx (hk : t.kind.isKnown) (hctx : t.kind.isCtx) : t.Regular := by
  have hcont : t.kind.isElemCont = false :=
    (by decide : ∀ k ∈ Kind.known, k.isCtx → k.isElemCont = false) t.kind.bare
      (Kind.bare_mem_known hk) hctx
  refine ⟨hk, fun _ h => ?_, fun _ h => ?_, fun h => ?_⟩
  · simp [hctx] at h
  · simp [hctx] at h
  · simp [hcont] at h

lemma Notated.regular (h : t.Notated) : t.Regular := by
  have hknown : ∀ {u : Ty} {o : Bool}, t = u.optIf o → u.kind.isKnown := by
    rintro u o rfl
    simpa only [Kind.isKnown, bits_optIf] using h.isKnown
  cases h with
  | kind o hk _ =>
    refine .optIf ⟨hknown rfl, fun _ _ => (bare_named _ hk).2, fun hd => ?_,
      fun _ => Nat.zero_le _⟩ o
    cases hd
  | var o _ _ _ => exact .optIf (.of_isCtx (hknown rfl)
      (by rw [kind_var]; exact (show Kind.var.isCtx by decide))) o
  | self o => exact .optIf (.of_isCtx (hknown rfl) (show Kind.self.isCtx by decide)) o
  | ref o _ _ _ => exact .optIf (.of_isCtx (hknown rfl) (show Kind.ref.isCtx by decide)) o
  | sch o _ _ => exact .optIf (.of_isCtx (hknown rfl) (show Kind.sch.isCtx by decide)) o
  | alt o _ _ _ _ => exact .optIf (.of_isCtx (hknown rfl) (show Kind.alt.isCtx by decide)) o
  | cont o _ hc _ _ =>
    refine .optIf ⟨hknown rfl, fun hd => ?_, fun _ _ hcont => ?_, fun _ => le_rfl⟩ o
    · cases hd
    · exact absurd (Bool.and_eq_true_iff.1 hc).1 (Bool.eq_false_iff.1 hcont)
  | composite o hk hcomp _ _ _ _ _ _ =>
    refine .optIf ⟨hknown rfl, fun hd => ?_, fun _ _ _ => hcomp, fun hc => ?_⟩ o
    · cases hd
    · exact absurd hc (Bool.eq_false_iff.1 (isElemCont_composite _ hk hcomp))
  | constants o _ hor _ _ =>
    refine .optIf ⟨hknown rfl, fun hd => ?_, fun _ _ _ => ?_, fun _ => Nat.zero_le _⟩ o
    · cases hd
    · obtain rfl | rfl := hor
      · exact (show Kind.flags.isComposite by decide)
      · exact (show Kind.enum.isComposite by decide)

/-- The kind of the source is below that of the destination, and it has at least as much detail. -/
structure Below (src dst : Ty) : Prop where
  ctx : src.kind.isCtx = false ∧ dst.kind.isCtx = false
  any : src.isAny = false ∧ dst.isAny = false
  void : src.isVoid = false ∧ dst.isVoid = false
  family : src.kind.family &&& dst.kind.family = dst.kind.family
  detail : dst.isDetailed → dst.kind.isCont
  fields : dst.kind.isObj → dst.isDetailed → src.isDetailed
  elem : dst.elem?.isSome → src.kind.isObj ∨ src.elem?.isSome

namespace Below

lemma isObj (h : a.Below b) (hb : b.kind.isObj) : a.kind.isObj :=
  Kind.meets_of_family (by decide) h.family hb

lemma trans (hab : a.Below b) (hbc : b.Below c) : a.Below c where
  ctx := ⟨hab.ctx.1, hbc.ctx.2⟩
  any := ⟨hab.any.1, hbc.any.2⟩
  void := ⟨hab.void.1, hbc.void.2⟩
  family := by rw [← hbc.family, ← UInt32.and_assoc, hab.family]
  detail := hbc.detail
  fields hobj hdetail := hab.fields (hbc.isObj hobj) (hbc.fields hobj hdetail)
  elem he := (hbc.elem he).elim (fun hobj => .inl (hab.isObj hobj)) hab.elem

end Below

/-! ## Parts -/

/-- What a container says about the part of a name: an object by its fields, other containers by
their element type. -/
def part? (t : Ty) (n : String) : Option Ty :=
  if t.kind.isObj then (t.field? n).map (·.2) else t.elem?

/-- The source has the fields that the destination requires. -/
def Supplies (src dst : Ty) : Prop := dst.kind.isObj → ∀ p ∈ dst.params, Param.isOpt p.1 = false →
    (src.field? p.1).isSome

/-- The source widens to the destination if its values can be used there as they are. -/
def Widens (src dst : Ty) : Prop := (fit src dst).isDirect

/-- The parts of the source that the destination speaks about widen to what it says. -/
def PartsWiden (src dst : Ty) : Prop := ∀ p ∈ src.params, ∀ z, dst.part? p.1 = some z → p.2.Widens z

lemma widens_iff_reaches : a.Widens c ↔ (fit a c).Reaches 4 := Fit.isDirect_iff _

lemma Widens.refl (t : Ty) : t.Widens t := by
  rw [widens_iff_reaches, fit_self]
  decide

lemma part?_congr {m : String} (h : Param.key m = Param.key n) (t : Ty) :
    t.part? m = t.part? n := by
  rw [part?, part?, field?_congr h]

lemma part?_of_isElemCont (h : t.kind.isObj = false) (n : String) : t.part? n = t.elem? := by
  rw [part?, h]
  rfl

lemma part?_of_isObj (h : t.kind.isObj) (n : String) : t.part? n = (t.field? n).map (·.2) := by
  rw [part?, if_pos h]

lemma isElemCont_of_elem? (h : t.elem? = some u) : t.kind.isElemCont := by
  by_contra hc
  simp [elem?, hc] at h

lemma isCont_of_part? (hk : t.kind.isKnown) (h : t.part? n = some u) : t.kind.isCont := by
  cases hobj : t.kind.isObj with
  | true => exact Kind.isCont_of_isObj hk hobj
  | false =>
    rw [part?_of_isElemCont hobj] at h
    exact (Bool.and_eq_true_iff.1 (isElemCont_of_elem? h)).1

/-! ## Comparing -/

lemma reaches_fitKinds : (fitKinds a c).Reaches 4 ↔ a.kind.family &&& c.kind.family =
    c.kind.family ∧ (a.kind.family = c.kind.family → a.isDetailed ∧ c.isDetailed = false) := by
  unfold fitKinds
  by_cases heq : a.kind.family = c.kind.family
  · simp only [heq]
    cases a.isDetailed <;> cases c.isDetailed
    · cases a.kind.isSpec <;> simp
    · simp
    · simp
    · cases a.kind.isSpec <;> simp
  · have hne : (a.kind.family == c.kind.family) = false := beq_eq_false_iff_ne.2 heq
    simp only [heq, ↓reduceIte, false_implies, and_true, beq_iff_eq]
    split
    · next hsrc =>
      refine iff_of_false (by simp) fun hdst => heq ?_
      rw [← hsrc, hdst]
    · split
      · next hdst => exact iff_of_true (by simp) hdst
      · next hdst => split <;> exact iff_of_false (by simp) hdst

lemma widens_iff_fitPlain (hequal : equal a.deopt c.deopt → a.deopt = c.deopt) : a.Widens c ↔
    (a.isOpt → c.isOpt ∨ c.isAny) ∧ (fitPlain fit a.deopt c.deopt).Reaches 4 := by
  rw [widens_iff_reaches, fit_eq, reaches_fitWith (by decide)]
  refine and_congr_left fun hreaches => ?_
  have hsrc : a.isAny → c.isAny := by
    intro ha
    cases heq : equal a.deopt c.deopt with
    | true => rwa [← isAny_deopt, ← hequal heq, isAny_deopt]
    | false =>
      have hfalse := ((reaches_fitPlain le_rfl heq).1 hreaches).2.1.1
      rw [isAny_deopt, ha] at hfalse
      cases hfalse
  grind

lemma deopt_eq_of_plain (ha : a.Regular) (hc : c.Regular)
    (hplain : a.isDetailed = false ∧ c.isDetailed = false)
    (hctx : a.kind.isCtx = false ∧ c.kind.isCtx = false) (h : a.kind.family = c.kind.family) :
    a.deopt = c.deopt := by
  have hbits := Kind.bits_eq_of_family ha.isKnown hc.isKnown hctx h
  have hslot := (ha.slot hplain.1 hctx.1).trans (hc.slot hplain.2 hctx.2).symm
  cases a with
  | detailed => cases hplain.1
  | plain j =>
    cases c with
    | detailed => cases hplain.2
    | plain k => exact congrArg plain (congrArg₂ (fun bits slot => Kind.mk bits false slot)
        hbits hslot)

/-- The fields of the destination are found if and only if the source has those that are required
and the parts that both have widen. -/
lemma forall_found_iff (ha : Param.apart (a.params.map (·.1)))
    (hc : Param.apart (c.params.map (·.1)))
    (hobj : c.kind.isObj) : (∀ p ∈ c.params, Found 4 fit a p) ↔ a.Supplies c ∧ a.PartsWiden c := by
  have hkey (p : Param) (hp : p ∈ c.params) : a.field? (Param.key p.1) = a.field? p.1 :=
    field?_congr ((Param.apart_iff.1 hc).1 p hp) a
  have hfield {q : Param} {n : String} : a.field? n = some q ↔ q ∈ a.params ∧
    Param.key q.1 = Param.key n := field?_eq_some_iff (Param.apart_iff.1 ha).2
  have hfield' {q : Param} {n : String} : c.field? n = some q ↔ q ∈ c.params ∧
    Param.key q.1 = Param.key n := field?_eq_some_iff (Param.apart_iff.1 hc).2
  constructor
  · intro h
    constructor
    · intro _ p hp hopt
      have hfound := h p hp
      rw [Found, hkey p hp] at hfound
      cases hq : a.field? p.1 with
      | none =>
        rw [hq, hopt] at hfound
        cases hfound.1
      | some q => rfl
    · intro q hq z hz
      rw [part?_of_isObj hobj] at hz
      obtain ⟨p, hp, rfl⟩ := map_eq_some_iff.1 hz
      obtain ⟨hmem, hname⟩ := hfield'.1 hp
      have hfound := h p hmem
      rw [Found, hkey p hmem, hfield.2 ⟨hq, hname.symm⟩] at hfound
      exact widens_iff_reaches.2 hfound
  · rintro ⟨hsupplies, hparts⟩ p hp
    rw [Found, hkey p hp]
    cases hq : a.field? p.1 with
    | none =>
      by_contra hopt
      have hsome := hsupplies hobj p hp (by simpa using hopt)
      rw [hq] at hsome
      cases hsome
    | some q =>
      obtain ⟨hmem, hname⟩ := hfield.1 hq
      refine widens_iff_reaches.1 (hparts q hmem p.2 ?_)
      rw [part?_of_isObj hobj, hfield'.2 ⟨hp, hname.symm⟩]
      rfl

/-- A type that can be written, without self references and with fields apart. -/
structure Legible (t : Ty) : Prop where
  notated : t.Notated
  selfFree : t.selfFree
  orderly : t.Orderly true true

lemma Legible.part (h : t.Legible) (hv : t.kind.isVar = false) {p : Param} (hp : p ∈ t.params) :
    p.2.Legible where
  notated := h.notated.part hp
  selfFree := (selfFree_iff.1 h.selfFree).2 p hp
  orderly := h.orderly.part hv hp

lemma parts_of_plain (h : c.isDetailed = false) : a.Supplies c ∧ a.PartsWiden c := by
  cases c with
  | detailed => cases h
  | plain k =>
    refine ⟨fun _ p hp => ?_, fun p _ z hz => ?_⟩
    · cases hp
    · simp [part?, field?, elem?, params] at hz

lemma Regular.params_of_elem? (h : t.Regular) (he : t.elem? = some u) :
    ∃ n, t.params = [(n, u)] := by
  have hlen := h.elem (isElemCont_of_elem? he)
  rw [elem?, if_pos (isElemCont_of_elem? he)] at he
  obtain ⟨p, hp, rfl⟩ := map_eq_some_iff.1 he
  cases hps : t.params with
  | nil => simp [hps] at hp
  | cons q ps =>
    rw [hps] at hp hlen
    obtain rfl : q = p := by simpa using hp
    obtain rfl : ps = [] := length_eq_zero_iff.1 (by simpa using hlen)
    exact ⟨q.1, rfl⟩

lemma Regular.partsWiden_iff (ha : a.Regular) (hco : c.kind.isObj = false)
    (helem : c.elem?.isSome → a.elem?.isSome) :
    a.PartsWiden c ↔ ∀ x ∈ a.elem?, ∀ y ∈ c.elem?, x.Widens y := by
  cases hd : c.elem? with
  | none => simp [PartsWiden, part?_of_isElemCont hco, hd]
  | some d =>
    obtain ⟨s, hs⟩ := isSome_iff_exists.1 (helem (by rw [hd]; rfl))
    obtain ⟨n, hps⟩ := ha.params_of_elem? hs
    simp [PartsWiden, hps, part?_of_isElemCont hco, hs, hd]

lemma fitContainers_of_isObj {f : Ty → Ty → Fit} (ha : a.kind.isKnown ∧ a.kind.isObj)
    (hc : c.kind.isKnown ∧ c.kind.isObj) : fitContainers f a c = fitObjects f a c := by
  have hkinds : fitContKinds a.kind c.kind = some .same := by
    simp only [fitContKinds, Kind.family_of_isObj ha.1 ha.2, Kind.family_of_isObj hc.1 hc.2]
    decide
  rw [fitContainers, hkinds]
  simp [ha.2, hc.2]

lemma reaches_fitContainers (ha : a.Regular) (hc : c.Regular)
    (horder : a.Orderly true true ∧ c.Orderly true true)
    (hctx : a.kind.isCtx = false ∧ c.kind.isCtx = false) (hcont : c.kind.isCont)
    (hne : a.deopt ≠ c.deopt) : (fitContainers fit a c).Reaches 4 ↔
      (a.kind.family &&& c.kind.family = c.kind.family ∧
      (c.kind.isObj → c.isDetailed → a.isDetailed) ∧
        (c.elem?.isSome → a.kind.isObj ∨ a.elem?.isSome)) ∧ a.Supplies c ∧ a.PartsWiden c := by
  cases hk : fitContKinds a.kind c.kind with
  | none =>
    rw [fitContainers, hk]
    refine iff_of_false (by simp) fun h => ?_
    exact Kind.family_ne_zero_of_isCont hcont (h.1.1.symm.trans (fitContKinds_eq_none_iff.1 hk))
  | some kinds =>
    have hkinds : kinds.Reaches 4 ↔ a.kind.family &&& c.kind.family = c.kind.family := by
      simp [reaches_fitContKinds hk]
    cases hco : c.kind.isObj with
    | false =>
      have hsupplies : a.Supplies c := fun h => by simp [hco] at h
      cases hao : a.kind.isObj with
      | false =>
        have hparts := ha.partsWiden_iff hco
        simp only [widens_iff_reaches] at hparts
        rw [reaches_fitContainers_elem hk (by decide) hao hco, hkinds]
        grind
      | true =>
        -- An object as a container of its fields.
        have hparts : a.PartsWiden c ↔ ∀ p ∈ a.params, ∀ y ∈ c.elem?, (fit p.2 y).Reaches 4 := by
          simp [PartsWiden, widens_iff_reaches, part?_of_isElemCont hco]
        rw [reaches_fitContainers_fields hk hao hco, hkinds, hparts]
        simp [hsupplies]
    | true =>
      have helem : c.elem? = none := by simp [elem?, Kind.isElemCont, hco]
      cases hao : a.kind.isObj with
      | false =>
        -- Nothing else becomes an object.
        refine iff_of_false ?_ fun h => ?_
        · rw [fitContainers, hk]
          simp [hao, hco]
        · have hobj : a.kind.isObj := Kind.meets_of_family (by decide) h.1.1 hco
          simp [hao] at hobj
      | true =>
        have hfamily := (Kind.family_of_isObj ha.isKnown hao).trans
          (Kind.family_of_isObj hc.isKnown hco).symm
        rw [fitContainers_of_isObj ⟨ha.isKnown, hao⟩ ⟨hc.isKnown, hco⟩,
          reaches_fitObjects (by decide),
          forall_found_iff (horder.1.apart rfl hao) (horder.2.apart rfl hco) hco]
        constructor
        · rintro ⟨hdetail, hparts, -⟩
          refine ⟨⟨by rw [hfamily, UInt32.and_self], fun _ _ => hdetail, by simp⟩, ?_⟩
          cases hcd : c.isDetailed with
          | false => exact parts_of_plain hcd
          | true => exact hparts hcd
        · rintro ⟨⟨_, hdetail, _⟩, hparts⟩
          refine ⟨?_, fun _ => hparts, by simp⟩
          by_contra had
          have hcd : c.isDetailed = false := Bool.eq_false_iff.2 fun hcd => had (hdetail rfl hcd)
          exact hne (deopt_eq_of_plain ha hc ⟨Bool.eq_false_iff.2 had, hcd⟩ hctx hfamily)

lemma reaches_fitPlain_iff (ha : a.Regular) (hc : c.Regular)
    (horder : a.Orderly true true ∧ c.Orderly true true)
    (hequal : equal a c = false) (hne : a.deopt ≠ c.deopt) :
    (fitPlain fit a c).Reaches 4 ↔ a.Below c ∧ a.Supplies c ∧ a.PartsWiden c := by
  have hapart (hfamily : a.kind.family &&& c.kind.family = c.kind.family)
      (hboth : ¬ (a.kind.isCont && c.kind.isCont) = true) : c.kind.isCont = false := by
    rw [Bool.eq_false_iff]
    intro hcont
    exact hboth (Bool.and_eq_true_iff.2 ⟨Kind.meets_of_family (by decide) hfamily hcont, hcont⟩)
  rw [reaches_fitPlain le_rfl hequal]
  constructor
  · rintro ⟨hctx, hany, hvoid, h⟩
    split at h
    · next hboth =>
      have hcont := (Bool.and_eq_true_iff.1 hboth).2
      obtain ⟨⟨hfamily, hfields, helem⟩, hparts⟩ :=
        (reaches_fitContainers ha hc horder hctx hcont hne).1 h
      exact ⟨⟨hctx, hany, hvoid, hfamily, fun _ => hcont, hfields, helem⟩, hparts⟩
    · next hboth =>
      obtain ⟨hfamily, hdetail⟩ := reaches_fitKinds.1 h
      have hcont := hapart hfamily hboth
      have hplain : c.isDetailed = false := by
        by_contra hcd
        have hcomp := hc.isComposite (by simpa using hcd) hctx.2 hcont
        exact hcd (hdetail
          (Kind.family_eq_of_isComposite ha.isKnown hc.isKnown hctx hcont hcomp hfamily)).2
      refine ⟨⟨hctx, hany, hvoid, hfamily, fun hd => ?_, fun _ hd => ?_, fun he => ?_⟩,
        parts_of_plain hplain⟩
      · simp [hplain] at hd
      · simp [hplain] at hd
      · simp [elem?, Kind.isElemCont, hcont] at he
  · rintro ⟨hbelow, hparts⟩
    refine ⟨hbelow.ctx, hbelow.any, hbelow.void, ?_⟩
    split
    · next hboth =>
      have hcont := (Bool.and_eq_true_iff.1 hboth).2
      exact (reaches_fitContainers ha hc horder hbelow.ctx hcont hne).2
        ⟨⟨hbelow.family, hbelow.fields, hbelow.elem⟩, hparts⟩
    · next hboth =>
      have hcont := hapart hbelow.family hboth
      have hplain : c.isDetailed = false := by
        rw [Bool.eq_false_iff]
        intro hcd
        exact Bool.eq_false_iff.1 hcont (hbelow.detail hcd)
      refine reaches_fitKinds.2 ⟨hbelow.family, fun hfamily => ⟨?_, hplain⟩⟩
      by_contra had
      exact hne (deopt_eq_of_plain ha hc ⟨Bool.eq_false_iff.2 had, hplain⟩ hbelow.ctx hfamily)

/-! ## Heads and parts together -/

lemma below_deopt : a.deopt.Below c.deopt ↔ a.Below c := by
  constructor <;> intro h <;> cases a <;> cases c <;> exact ⟨h.ctx, h.any, h.void, h.family,
    h.detail, h.fields, h.elem⟩

lemma supplies_deopt : a.deopt.Supplies c.deopt ↔ a.Supplies c := by cases a <;> cases c <;> rfl

lemma partsWiden_deopt : a.deopt.PartsWiden c.deopt ↔ a.PartsWiden c := by
  cases a <;> cases c <;> rfl

/-- The types are the same but for the mark, or the head of the source is below that of the
destination. -/
def Covers (src dst : Ty) : Prop := src.deopt = dst.deopt ∨ src.Below dst

namespace Covers

lemma trans (hab : a.Covers b) (hbc : b.Covers c) : a.Covers c := by
  rcases hab with hab | hab
  · rcases hbc with hbc | hbc
    · exact .inl (hab.trans hbc)
    · exact .inr (by rwa [← below_deopt, hab, below_deopt])
  · rcases hbc with hbc | hbc
    · exact .inr (by rwa [← below_deopt, ← hbc, below_deopt])
    · exact .inr (hab.trans hbc)

lemma isAny (h : a.Covers c) (ha : a.isAny) : c.isAny := by
  rcases h with h | h
  · rwa [← isAny_deopt, ← h, isAny_deopt]
  · exact absurd ha (Bool.eq_false_iff.1 h.any.1)

lemma isObj (h : a.Covers c) (hc : c.kind.isObj) : a.kind.isObj := by
  rcases h with h | h
  · rwa [← isObj_deopt, h, isObj_deopt]
  · exact h.isObj hc

lemma elem (h : a.Covers c) (hc : c.elem?.isSome) : a.kind.isObj ∨ a.elem?.isSome := by
  rcases h with h | h
  · exact .inr (by rwa [← elem?_deopt, h, elem?_deopt])
  · exact h.elem hc

lemma isVar_eq (h : a.Covers c) (hc : c.kind.isCont) : a.kind.isVar = false := by
  rcases h with h | h
  · rw [← isVar_deopt, h, isVar_deopt]
    exact Kind.isVar_eq_false_of_isCont hc
  · exact Kind.isVar_eq_false_of_isCtx h.ctx.1

end Covers

lemma parts_of_deopt_eq (ha : a.Legible) (heq : a.deopt = c.deopt) :
    a.Supplies c ∧ a.PartsWiden c := by
  rw [← supplies_deopt, ← partsWiden_deopt, ← heq, partsWiden_deopt]
  constructor
  · exact fun _ p hp _ => find?_isSome.2 ⟨p, hp, by simp⟩
  · intro p hp z hz
    cases hobj : a.kind.isObj with
    | true =>
      have hnodup := (Param.apart_iff.1 (ha.orderly.apart rfl hobj)).2
      rw [part?_of_isObj hobj, (field?_eq_some_iff hnodup).2 ⟨hp, rfl⟩] at hz
      cases hz
      exact .refl _
    | false =>
      rw [part?_of_isElemCont hobj] at hz
      obtain ⟨n, hps⟩ := ha.notated.regular.params_of_elem? hz
      rw [hps, mem_singleton] at hp
      rw [hp]
      exact .refl z

/-- A type widens to another one if its head covers the other's, if it has the fields that are
required there, and if the parts that both speak about widen. -/
lemma widens_iff (ha : a.Legible) (hc : c.Legible) :
    a.Widens c ↔ (a.isOpt → c.isOpt ∨ c.isAny) ∧ a.Covers c ∧ a.Supplies c ∧ a.PartsWiden c := by
  rw [widens_iff_fitPlain (deopt_eq_of_equal ha.selfFree hc.selfFree)]
  refine and_congr_right fun _ => ?_
  by_cases heq : a.deopt = c.deopt
  · rw [heq, fitPlain, if_pos (equal_self _)]
    exact iff_of_true (by decide) ⟨.inl heq, parts_of_deopt_eq ha heq⟩
  · have hequal : equal a.deopt c.deopt = false :=
      Bool.eq_false_iff.2 fun h => heq (deopt_eq_of_equal ha.selfFree hc.selfFree h)
    rw [reaches_fitPlain_iff ha.notated.regular.deopt hc.notated.regular.deopt ⟨ha.orderly.deopt,
      hc.orderly.deopt⟩ hequal
      (by rwa [deopt_deopt, deopt_deopt]), below_deopt, supplies_deopt, partsWiden_deopt, Covers]
    simp [heq]

/-! ## Two steps -/

/-- Nothing stands against one step from the first type to the third, given that there are two by
the second: the first has the fields that the third requires, its parts that the second does not
speak about widen to what the third says, and the same holds of the parts that all three speak
about. -/
inductive Through : Ty → Ty → Ty → Prop
  | mk {a b c : Ty} : a.Supplies c →
    (∀ p ∈ a.params, ∀ z, c.part? p.1 = some z → b.part? p.1 = none → p.2.Widens z) →
    (∀ p ∈ a.params, ∀ z q, c.part? p.1 = some z → b.part? p.1 = some q → Through p.2 q z) →
    Through a b c

lemma exists_of_part? (h : t.part? n = some u) : ∃ p ∈ t.params, p.2 = u ∧
    (t.kind.isObj → Param.key p.1 = Param.key n) := by
  cases hobj : t.kind.isObj with
  | true =>
    rw [part?_of_isObj hobj] at h
    obtain ⟨p, hp, rfl⟩ := map_eq_some_iff.1 h
    exact ⟨p, mem_of_find?_eq_some hp, rfl, fun _ => key_of_field? hp⟩
  | false =>
    rw [part?_of_isElemCont hobj] at h
    obtain ⟨p, hp, rfl⟩ := exists_param_of_elem? h
    exact ⟨p, hp, rfl, by simp⟩

lemma widens_parts (ha : a.Legible) (hb : b.Legible) (hc : c.Legible) (hab : a.Widens b)
    (hbc : b.Widens c) {p : Param}
    {q z : Ty} (hp : p ∈ a.params) (hz : c.part? p.1 = some z) (hq : b.part? p.1 = some q) :
    (p.2.Legible ∧ q.Legible ∧ z.Legible) ∧ p.2.Widens q ∧ q.Widens z := by
  obtain ⟨_, hcov, _, hparts⟩ := (widens_iff ha hb).1 hab
  obtain ⟨_, hcov', _, hparts'⟩ := (widens_iff hb hc).1 hbc
  have hcontb := isCont_of_part? hb.notated.isKnown hq
  have hcontc := isCont_of_part? hc.notated.isKnown hz
  obtain ⟨r, hr, rfl, hkey⟩ := exists_of_part? hq
  obtain ⟨x, hx, rfl, _⟩ := exists_of_part? hz
  refine ⟨⟨ha.part (hcov.isVar_eq hcontb) hp, hb.part (hcov'.isVar_eq hcontc) hr,
    hc.part (Kind.isVar_eq_false_of_isCont hcontc) hx⟩, hparts p hp r.2 hq, hparts' r hr x.2 ?_⟩
  cases hobj : c.kind.isObj with
  | true => rwa [part?_congr (hkey (hcov'.isObj hobj))]
  | false => rwa [part?_of_isElemCont hobj] at hz ⊢

lemma widens_iff_through (ha : a.Legible) (hb : b.Legible) (hc : c.Legible) (hab : a.Widens b)
    (hbc : b.Widens c) : a.Widens c ↔ Through a b c := by
  induction a using induct generalizing b c with
  | node a ih =>
    obtain ⟨hopt, hcov, _, _⟩ := (widens_iff ha hb).1 hab
    obtain ⟨hopt', hcov', _, _⟩ := (widens_iff hb hc).1 hbc
    have hkept (p : Param) (hp : p ∈ a.params) (z q : Ty) (hz : c.part? p.1 = some z)
      (hq : b.part? p.1 = some q) : p.2.Widens z ↔ Through p.2 q z := by
      obtain ⟨⟨hlp, hlq, hlz⟩, hpq, hqz⟩ := widens_parts ha hb hc hab hbc hp hz hq
      exact ih p hp hlp hlq hlz hpq hqz
    rw [widens_iff ha hc]
    constructor
    · rintro ⟨_, _, hsupplies, hparts⟩
      exact .mk hsupplies (fun p hp z hz _ => hparts p hp z hz) fun p hp z q hz hq =>
        (hkept p hp z q hz hq).1 (hparts p hp z hz)
    · rintro ⟨hsupplies, hdropped, hthrough⟩
      refine ⟨fun h => ?_, hcov.trans hcov', hsupplies, fun p hp z hz => ?_⟩
      · exact (hopt h).elim hopt' fun hany => .inr (hcov'.isAny hany)
      · cases hq : b.part? p.1 with
        | none => exact hdropped p hp z hz hq
        | some q => exact (hkept p hp z q hz hq).2 (hthrough p hp z q hz hq)

lemma through_of_isElementary (helem : a.isElementary) (ha : a.Legible) (hb : b.Legible)
    (hc : c.Legible) (hab : a.Widens b) (hbc : b.Widens c) : Through a b c := by
  induction a using induct generalizing b c with
  | node a ih =>
    obtain ⟨_, hcov, _, _⟩ := (widens_iff ha hb).1 hab
    obtain ⟨_, hcov', _, _⟩ := (widens_iff hb hc).1 hbc
    obtain ⟨_, hobj, hparts⟩ := isElementary_iff.1 helem
    have hobjb : b.kind.isObj = false :=
      Bool.eq_false_iff.2 fun h => Bool.eq_false_iff.1 hobj (hcov.isObj h)
    have hobjc : c.kind.isObj = false :=
      Bool.eq_false_iff.2 fun h => Bool.eq_false_iff.1 hobjb (hcov'.isObj h)
    refine .mk (fun h => ?_) (fun p hp z hz hq => ?_) fun p hp z q hz hq => ?_
    · simp [hobjc] at h
    · rw [part?_of_isElemCont hobjc] at hz
      rw [part?_of_isElemCont hobjb] at hq
      simpa [hobjb, hq] using hcov'.elem (by simp [hz])
    · obtain ⟨⟨hlp, hlq, hlz⟩, hpq, hqz⟩ := widens_parts ha hb hc hab hbc hp hz hq
      exact ih p hp (hparts p hp) hlp hlq hlz hpq hqz

lemma legible_of_parse {src : String} (h : parse src = .ok t) (hself : t.selfFree)
    (hapart : t.fieldsApart) : t.Legible :=
  ⟨notated_of_parse h, hself, orderly_of_fieldsApart hapart⟩

/-- Types that are read, without self references and with fields apart. Two steps of widening are
one step if and only if nothing stands against it, and without objects nothing does. -/
theorem widens_through {src src' src'' : String} (ha : parse src = .ok a) (hb : parse src' = .ok b)
    (hc : parse src'' = .ok c) (hself : a.selfFree ∧ b.selfFree ∧ c.selfFree)
    (hapart : a.fieldsApart ∧ b.fieldsApart ∧ c.fieldsApart)
    (hab : a.Widens b) (hbc : b.Widens c) : (a.Widens c ↔ Through a b c) ∧
    (a.isElementary → a.Widens c) := by
  have hla := legible_of_parse ha hself.1 hapart.1
  have hlb := legible_of_parse hb hself.2.1 hapart.2.1
  have hlc := legible_of_parse hc hself.2.2 hapart.2.2
  have hiff := widens_iff_through hla hlb hlc hab hbc
  exact ⟨hiff, fun helem => hiff.2 (through_of_isElementary helem hla hlb hlc hab hbc)⟩

/-- The second step adds an optional field that the first one dropped; the object that had it fits
nevertheless. -/
theorem widens_through_dropped : let a : Ty := .obj "" [("x", .list .int), ("y", .str)]
    let b : Ty := .obj "" [("x", .plain .list)]
    let c : Ty := .obj "" [("y?", .char), ("x", .plain .idxr)]
    a.Widens b ∧ b.Widens c ∧ b.part? "y" = none ∧ Through a b c ∧ a.Widens c ∧
    (Ty.list .int).Widens (.plain .idxr) := by
  intro a b c
  have hab : a.Widens b := by cbv
  have hbc : b.Widens c := by cbv
  have hac : a.Widens c := by cbv
  have ha : parse "(obj +x list|int +y str)" = .ok a := by cbv
  have hb : parse "(obj +x list)" = .ok b := by cbv
  have hc : parse "(obj +y? char +x idxr)" = .ok c := by cbv
  have hobj := widens_through ha hb hc (by cbv) (by cbv) hab hbc
  have hx : parse "list|int" = .ok (.list .int) := by cbv
  have hy : parse "list" = .ok (.plain .list) := by cbv
  have hz : parse "idxr" = .ok (.plain .idxr) := by cbv
  have helems := widens_through hx hy hz (by cbv) (by cbv) (by cbv) (by cbv)
  exact ⟨hab, hbc, by cbv, hobj.1.1 hac, hac, helems.2 (by cbv)⟩

/-- An object without a field fits a container of integers that the object with the field does not
fit. Where names have more marks than one a step looks a field up by the key of its key, and the
next step by yet another one. -/
theorem widens_not_trans :
    (∃ a b c, parse "(obj +x int +y str)" = .ok a ∧ parse "(obj +x int)" = .ok b ∧
    parse "idxr|int" = .ok c ∧ a.Widens b ∧ b.Widens c ∧ ¬ a.Widens c) ∧
    ∃ a b c, parse "(obj +x?? str)" = .ok a ∧ parse "(obj +x?? int)" = .ok b ∧
    parse "(obj +x??? int)" = .ok c ∧ a.Widens b ∧ b.Widens c ∧ ¬ a.Widens c := by
  constructor
  · let a : Ty := .obj "" [("x", .int), ("y", .str)]
    let b : Ty := .obj "" [("x", .int)]
    let c : Ty := .idxr .int
    have hac : (fit a c).isDirect = false := by cbv
    exact ⟨a, b, c, by cbv, by cbv, by cbv, by cbv, by cbv, Bool.eq_false_iff.1 hac⟩
  · let a : Ty := .obj "" [("x??", .str)]
    let b : Ty := .obj "" [("x??", .int)]
    let c : Ty := .obj "" [("x???", .int)]
    have hac : (fit a c).isDirect = false := by cbv
    exact ⟨a, b, c, by cbv, by cbv, by cbv, by cbv, by cbv, Bool.eq_false_iff.1 hac⟩

end Ty

end Resolvent
