import Resolvent.Proofs.Ty.Level
import Resolvent.Proofs.Ty.Simple

/-!
# Compatible shapes

Whether the type of a shape can be used where another one is expected, possibly after a check,
without regard to how: flags make no difference, and neither do names.
-/

namespace Resolvent

namespace Kind

lemma isCont_other {k : Kind} (h : k.isCont) : k.isAny = false ∧ k.isVoid = false := by
  simp only [isCont, meets] at h ⊢
  constructor <;> refine beq_eq_false_iff_ne.2 fun hbits =>
    ?_ <;> rw [hbits] at h <;> exact absurd h (by decide)

/-- Whether values of one kind may be used as those of another one, both without parts: one family
is within the other, or they are both numbers or both characters. -/
def fits (j k : Kind) : Bool :=
  j.family &&& k.family == j.family || j.family &&& k.family == k.family ||
    j.family &&& k.family &&& (numMask ||| charMask) != 0

end Kind

namespace Basic

/-- Whether values of one kind may be used as those of another. -/
def fits (b c : Basic) : Bool :=
  b.kind.bits &&& c.kind.bits == b.kind.bits || b.kind.bits &&& c.kind.bits == c.kind.bits ||
    b.kind.bits &&& c.kind.bits &&& (Kind.numMask ||| Kind.charMask) != 0

lemma fits_kind : ∀ b c : Basic, b.kind.fits c.kind = b.fits c := by decide

lemma not_fits_access : ∀ (b : Basic) (k : Access), b ≠ void → b.kind.fits k.kind = false ∧
    k.kind.fits b.kind = false := by
  decide

lemma fits_mono : ∀ b b' c : Basic, b ≤ b' → b.fits c → b'.fits c := by decide

lemma eq_void_of_le : ∀ b c : Basic, b ≤ c → (b = void ↔ c = void) := by decide

lemma fits_self : ∀ b : Basic, b.fits b := by decide

end Basic

namespace Access

/-- Whether values of one container kind may be used as those of another: they have an access in
common. -/
def fits (k l : Access) : Bool := k.kind.bits &&& l.kind.bits != 0

lemma fits_mono : ∀ k k' l : Access, k ≤ k' → k.fits l → k'.fits l := by decide

lemma fits_self : ∀ k : Access, k.fits k := by decide

end Access

/-! ## Shapes -/

namespace Shape

/-- Whether the type of a shape may be used as that of another. -/
def Fits : Shape → Shape → Prop
  | any, _ | _, any => True
  | basic b d, basic c e => b = c ∧ d = e ∨ b ≠ .void ∧ c ≠ .void ∧ b.fits c
  | bare k, bare l | bare k, cont l _ _ | cont k _ _, bare l => k.fits l
  | cont k _ e, cont l _ f => k.fits l ∧ e.Fits f
  | _, _ => False

/-- The shape says all about itself: no part of it is `any`, and all containers have an element
type. There is no `void` with a name. -/
def Definite : Shape → Prop
  | any | bare _ => False
  | basic b d => b = .void → d = none
  | cont _ _ e => e.Definite

variable {a b c : Shape}

lemma fits_refl (a : Shape) : a.Fits a := by
  induction a with
  | any => trivial
  | basic b d => exact .inl ⟨rfl, rfl⟩
  | bare k => exact k.fits_self
  | cont k o e ih => exact ⟨k.fits_self, ih⟩

lemma Definite.mono (h : a.Definite) (hab : a ≤ b) : b.Definite := by
  rw [le_def] at hab
  fun_induction Le a b with
  | case2 c d c' e =>
    rcases hab with ⟨rfl, rfl⟩ | ⟨rfl, _⟩
    · exact h
    · exact fun _ => rfl
  | case5 k o e l p f ih => exact ih h hab.2.2
  | _ => simp_all [Definite]

lemma fits_mono (h : a.Definite) (hab : a ≤ b) (hfits : a.Fits c) : b.Fits c := by
  rw [le_def] at hab
  fun_induction Le a b generalizing c with
  | case2 b d b' e =>
    rcases hab with ⟨rfl, rfl⟩ | ⟨rfl, hle⟩
    · exact hfits
    · cases c with
      | any => trivial
      | basic c e =>
        have hvoid := Basic.eq_void_of_le b b' hle
        rcases hfits with ⟨rfl, rfl⟩ | ⟨hb, hc, hfits⟩
        · by_cases hb : b = .void
          · exact .inl ⟨(hvoid.1 hb).trans hb.symm, (h hb).symm⟩
          · exact .inr ⟨mt hvoid.2 hb, hb, Basic.fits_mono b b' b hle b.fits_self⟩
        · exact .inr ⟨mt hvoid.2 hb, hc, Basic.fits_mono b b' c hle hfits⟩
      | bare m => exact hfits.elim
      | cont m q g => exact hfits.elim
  | case5 k o e l p f ih =>
    cases c with
    | any => trivial
    | basic c d => exact hfits.elim
    | bare m => exact Access.fits_mono k l m hab.1 hfits
    | cont m q g => exact ⟨Access.fits_mono k l m hab.1 hfits.1, ih h hab.2.2 hfits.2⟩
  | _ => simp_all [Definite]

def kind : Shape → Kind
  | any => .any
  | basic b _ => b.kind
  | bare k | cont k _ _ => k.kind

lemma family_kind_ty (a : Shape) (o : Bool) : (a.ty o).kind.family = a.kind.family := by
  rw [Kind.family, bits_ty]
  cases a <;> rfl

lemma fits_ty (a : Shape) (o : Bool) (k : Kind) : (a.ty o).kind.fits k = a.kind.fits k := by
  simp only [Kind.fits, family_kind_ty]

lemma isSpec_ty (a : Shape) (o : Bool) : (a.ty o).kind.isSpec = false := by
  rw [Kind.isSpec, Kind.meets, bits_ty]
  cases a with
  | any => rfl
  | basic b d => exact b.isSpec_kind
  | bare k => cases k <;> rfl
  | cont k q e => exact (by decide : ∀ k : Access, (k.kind.bits &&& Kind.specMask != 0) = false) k

lemma equal_ty (a c : Shape) (o : Bool) : Ty.equal (a.ty o) (c.ty o) ↔ a = c := by
  by_cases h : a = c
  · simp [h, Ty.equal_self]
  · simp [h, equal_ty_of_ne h]

def isVoid : Shape → Bool
  | basic b _ => b == .void
  | _ => false

lemma isVoid_ty (a : Shape) (o : Bool) : (a.ty o).isVoid = a.isVoid := by
  rw [Ty.isVoid, Kind.isVoid, bits_ty]
  cases a with
  | any => rfl
  | basic b d => cases b <;> rfl
  | bare k => cases k <;> rfl
  | cont k p e => cases k <;> rfl

end Shape

/-! ## Comparing types -/

namespace Ty

variable {a c : Ty} {f : Ty → Ty → Fit}

lemma elem?_deopt (t : Ty) : t.deopt.elem? = t.elem? := by cases t <;> rfl

lemma isCompatible_fitWith (f : Ty → Ty → Fit) (src dst : Ty) :
    (fitWith f src dst).isCompatible = (fitPlain f src.deopt dst.deopt).isCompatible := by
  rw [Bool.eq_iff_iff, Fit.isCompatible_iff, Fit.isCompatible_iff, fitWith]
  split
  · rfl
  · split
    · rw [Fit.reaches_cap (by decide), Fit.reaches_adding (by decide), and_iff_left (by decide)]
    · rw [Fit.reaches_cap (by decide), Fit.reaches_adding (by decide), and_iff_left (by decide)]
    · rfl

lemma isCompatible_fitKinds (hspec : a.kind.isSpec = false) : (fitKinds a c).isCompatible ↔
    a.kind.fits c.kind := by
  rw [Fit.isCompatible_iff]
  unfold fitKinds Kind.fits
  by_cases hsame : a.kind.family = c.kind.family
  · simp only [hsame, hspec, UInt32.and_self, beq_self_eq_true, ↓reduceIte, Bool.true_or]
    split <;> decide
  · simp only [beq_eq_false_iff_ne.2 hsame]
    split_ifs <;> simp_all

lemma isCompatible_fitContainers (hobj : a.kind.isObj = false) :
    (fitContainers f a c).isCompatible ↔
    a.kind.family &&& c.kind.family ≠ 0 ∧ ∀ x ∈ a.elem?, ∀ y ∈ c.elem?, (f x y).isCompatible := by
  simp only [Fit.isCompatible_iff]
  cases hk : fitContKinds a.kind c.kind with
  | none =>
    rw [fitContainers, hk]
    exact iff_of_false (by simp) fun h => h.1 (fitContKinds_eq_none_iff.1 hk)
  | some kinds =>
    have hcommon : a.kind.family &&& c.kind.family ≠ 0 :=
      fun h => by simp [fitContKinds_eq_none_iff.2 h] at hk
    have hkinds : kinds.Reaches 2 := by simp [reaches_fitContKinds hk]
    cases hc : c.kind.isObj with
    | true => simp [fitContainers, hk, hobj, hc, hcommon, hkinds, elem?, Kind.isElemCont]
    | false =>
      rw [reaches_fitContainers_elem hk (by decide) hobj hc]
      simp [hcommon, hkinds]

section

variable (hctx : a.kind.isCtx = false ∧ c.kind.isCtx = false)
include hctx

lemma isCompatible_fit_iff : (fit a c).isCompatible ↔ equal a.deopt c.deopt ∨ a.isAny ∨ c.isAny ∨
    a.isVoid = false ∧ c.isVoid = false ∧
      (if a.kind.isCont && c.kind.isCont then fitContainers fit a.deopt c.deopt
      else fitKinds a.deopt c.deopt).isCompatible := by
  have hkind (t : Ty) : t.deopt.kind.isCtx = t.kind.isCtx ∧ t.deopt.isAny = t.isAny ∧
    t.deopt.isVoid = t.isVoid ∧
      t.deopt.kind.isCont = t.kind.isCont := by cases t <;> exact ⟨rfl, rfl, rfl, rfl⟩
  rw [fit_eq, isCompatible_fitWith, Fit.isCompatible_iff, Fit.isCompatible_iff, fitPlain]
  simp only [hkind, hctx]
  cases equal a.deopt c.deopt <;> cases a.isAny <;> cases c.isAny <;> cases a.isVoid <;>
    cases c.isVoid <;> simp

lemma isCompatible_fit_of_isCont (hcont : a.kind.isCont ∧ c.kind.isCont)
    (hobj : a.kind.isObj = false) : (fit a c).isCompatible ↔ equal a.deopt c.deopt ∨
      a.kind.family &&& c.kind.family ≠ 0 ∧ ∀ x ∈ a.elem?, ∀ y ∈ c.elem?,
      (fit x y).isCompatible := by
  have hother {t : Ty} (ht : t.kind.isCont) : t.isAny = false ∧ t.isVoid = false :=
    Kind.isCont_other ht
  have hdeopt (t : Ty) : t.deopt.kind.isObj = t.kind.isObj ∧
    t.deopt.kind.family = t.kind.family := by
    cases t <;> exact ⟨rfl, rfl⟩
  have hparts := isCompatible_fitContainers (a := a.deopt) (c := c.deopt) (f := fit)
    (by rw [(hdeopt a).1, hobj])
  simp [isCompatible_fit_iff hctx, hother hcont.1, hother hcont.2, hcont, hparts,
    elem?_deopt, hdeopt]

lemma isCompatible_fit_of_not_isCont (hcont : (a.kind.isCont && c.kind.isCont) = false)
    (hspec : a.kind.isSpec = false) : (fit a c).isCompatible ↔
      equal a.deopt c.deopt ∨ a.isAny ∨ c.isAny ∨ a.isVoid = false ∧ c.isVoid = false ∧
      a.kind.fits c.kind := by
  have hfits := isCompatible_fitKinds (a := a.deopt) (c := c.deopt)
    (by rw [← hspec]; cases a <;> rfl)
  have hkind : a.deopt.kind.fits c.deopt.kind = a.kind.fits c.kind := by cases a <;> cases c <;> rfl
  rw [isCompatible_fit_iff hctx, hcont, ← hkind, ← hfits]
  rfl

end

end Ty

/-! ## Comparing shapes -/

namespace Shape

variable {a c : Shape} {o p : Bool}

lemma isAny_ty_iff : (a.ty o).isAny ↔ a = any := by
  by_cases h : a = any
  · simp [h, isAny_ty_any]
  · simp [h, isAny_ty_of_ne]

lemma isCompatible_of_access? {t : Ty} {k : Access} (ha : a.access? = some k)
    (ht : t.kind.isCtx = false)
    (hcont : t.kind.isCont) : (Ty.fit (a.ty o) t).isCompatible ↔ Ty.equal (a.ty false) t.deopt ∨
      k.kind.family &&& t.kind.family ≠ 0 ∧ ∀ x ∈ (a.ty o).elem?, ∀ y ∈ t.elem?,
      (Ty.fit x y).isCompatible := by
  have hsrc : (a.ty o).kind.isCont := by simp [isCont_ty, ha]
  rw [Ty.isCompatible_fit_of_isCont ⟨isCtx_ty a o, ht⟩ ⟨hsrc, hcont⟩ (isObj_ty a o), deopt_ty,
    family_ty ha]

lemma isCompatible_of_not_isCont {t : Ty} (h : a.access? = none ∨ t.kind.isCont = false)
    (ht : t.kind.isCtx = false) :
    (Ty.fit (a.ty o) t).isCompatible ↔ Ty.equal (a.ty false) t.deopt ∨ a = any ∨ t.isAny ∨
      a.isVoid = false ∧ t.isVoid = false ∧ a.kind.fits t.kind := by
  have hcont : ((a.ty o).kind.isCont && t.kind.isCont) = false := by
    rcases h with h | h <;> simp [isCont_ty, h]
  rw [Ty.isCompatible_fit_of_not_isCont ⟨isCtx_ty a o, ht⟩ hcont (isSpec_ty a o), deopt_ty,
    isAny_ty_iff, isVoid_ty, fits_ty]

lemma isCompatible_fit (a c : Shape) (o p : Bool) : (Ty.fit (a.ty o) (c.ty p)).isCompatible ↔
    a.Fits c := by
  have hcont : ∀ k l : Access, k.kind.family &&& l.kind.family ≠ 0 ↔ k.fits l := by decide
  have hother {a c : Shape} {o p : Bool} (h : a.access? = none ∨ c.access? = none) :
    (Ty.fit (a.ty o) (c.ty p)).isCompatible ↔
        a = c ∨ a = any ∨ c = any ∨ a.isVoid = false ∧ c.isVoid = false ∧ a.kind.fits c.kind := by
    rw [isCompatible_of_not_isCont (h.imp_right fun h => by simp [isCont_ty, h]) (isCtx_ty c p),
      deopt_ty, equal_ty, isAny_ty_iff, isVoid_ty, Kind.fits, Kind.fits, family_kind_ty]
  have haccess {a c : Shape} {o p : Bool} {k l : Access} (ha : a.access? = some k)
    (hc : c.access? = some l) : (Ty.fit (a.ty o) (c.ty p)).isCompatible ↔
        a = c ∨ k.fits l ∧ ∀ x ∈ (a.ty o).elem?, ∀ y ∈ (c.ty p).elem?,
        (Ty.fit x y).isCompatible := by
    rw [isCompatible_of_access? ha (isCtx_ty c p) (by simp [isCont_ty, hc]), deopt_ty, equal_ty,
      family_ty hc, hcont]
  induction a generalizing c o p with
  | any => simp [hother (a := any) (.inl rfl), Fits]
  | basic b d =>
    rw [hother (.inl rfl)]
    cases c <;> simp [Fits, isVoid, kind, Basic.fits_kind] <;> grind [Basic.not_fits_access]
  | bare k =>
    cases c with
    | any => simp [hother, access?, Fits]
    | basic c e => simp +contextual [hother, access?, Fits, isVoid, kind, Basic.not_fits_access]
    | bare l =>
      have hself := k.fits_self
      simp only [haccess (a := bare k) (c := bare l) rfl rfl, Fits, elem?_ty]
      grind
    | cont l q f => simp [haccess (a := bare k) (c := cont l q f) rfl rfl, elem?_ty, Fits]
  | cont k q e ih =>
    cases c with
    | any => simp [hother, access?, Fits]
    | basic c e => simp +contextual [hother, access?, Fits, isVoid, kind, Basic.not_fits_access]
    | bare l => simp [haccess (a := cont k q e) (c := bare l) rfl rfl, elem?_ty, Fits]
    | cont l q' f =>
      have hself := (cont k q e).fits_refl
      simp only [haccess (a := cont k q e) (c := cont l q' f) rfl rfl, elem?_ty,
        Option.mem_some_iff, Fits] at hself ⊢
      grind

end Shape

end Resolvent
