import Resolvent.Proofs.Ty.Widening
import Resolvent.Proofs.Val.Typing

/-!
# Conversion and comparison

Conversion goes by the kind of the target, comparison by what the families of two types have in
common.
-/

namespace Resolvent

open Option Bool

/-! ## Targets -/

namespace Ty

variable {t u : Ty}

/-- No part is a variable, a reference, an alternative or a self reference. -/
structure Free (t : Ty) : Prop where
  concrete : t.Concrete (fun _ => True) false
  whole : t.Whole

namespace Free

lemma bare_mem_known (h : t.Free) : t.kind.bare ∈ Kind.known :=
  Kind.bare_mem_known h.concrete.spelled.known

lemma isCtx_eq (h : t.Free) : t.kind.isCtx = false := by
  have hkinds : ∀ k ∈ Kind.known, k.isVar = false → k.isSelf = false → k.isAlt = false → k.NoRef →
    k.isCtx = false := by
    decide
  have hspelled := h.concrete.spelled
  exact hkinds t.kind.bare h.bare_mem_known hspelled.not_var hspelled.not_self h.concrete.isAlt_eq
    h.whole.noRef

lemma elem (h : t.Free) (hu : u ∈ t.elem?) : u.Free := by
  obtain ⟨p, hp, rfl⟩ := exists_param_of_elem? hu
  exact ⟨h.concrete.part hp, h.whole.part hp⟩

lemma plain {k : Kind} (hk : k.isKnown) (hctx : k.isCtx = false) : (Ty.plain k).Free :=
  ⟨.plain (.of_isCtx hk hctx), .plain (.of_isCtx hctx)⟩

lemma around {k : Kind} (hk : k.isKnown) (hctx : k.isCtx = false) (hobj : k.isObj = false)
    (h : t.Free) : (Ty.around k t).Free :=
  ⟨.around (.of_isCtx hk hctx) hobj h.concrete, .around (.of_isCtx hctx) h.whole⟩

lemma equal_iff (h : t.Free) (a : Shape) : equal (a.ty false) t.deopt ↔ a.ty false = t.deopt :=
  (a.ground_ty false).equal_iff h.concrete.deopt.ground

end Free

lemma of_reaches_fitContainers (hobj : t.kind.isObj = false)
    (h : (fitContainers fit t u).Reaches 4) :
    t.kind.family &&& u.kind.family = u.kind.family ∧ ∀ y ∈ u.elem?, ∃ x ∈ t.elem?, x.Widens y := by
  cases hk : fitContKinds t.kind u.kind with
  | none => simp [fitContainers, hk] at h
  | some kinds =>
    cases hu : u.kind.isObj with
    | true => simp [fitContainers, hk, hobj, hu] at h
    | false =>
      rw [reaches_fitContainers_elem hk (by decide) hobj hu, reaches_fitContKinds hk (by decide)]
        at h
      refine ⟨h.1.1 (by decide), fun y hy => ?_⟩
      obtain ⟨x, hx⟩ := isSome_iff_exists.1 (h.2.2.1 (by decide) (by rw [mem_def.1 hy]; rfl))
      exact ⟨x, hx, widens_iff_reaches.2 (h.2.1 x hx y hy)⟩

end Ty

namespace Shape

variable {a b c : Shape} {t : Ty} {o : Bool} {k : Access}

lemma bare_of_deopt (h : a.ty false = t.deopt) : t.kind.bare = a.kind := by
  have hbits : t.kind.bits = a.bits := by
    rw [← bits_ty a false, h]
    cases t <;> rfl
  rw [Kind.bare, hbits]
  cases a with
  | basic b d => cases b <;> rfl
  | bare k | cont k _ _ => cases k <;> rfl
  | any => rfl

/-! ## Compatible targets -/

def Suits (a : Shape) (t : Ty) : Prop := (Ty.fit (a.ty false) t).isCompatible

lemma isCompatible_ty (a : Shape) (o : Bool) (t : Ty) : (Ty.fit (a.ty o) t).isCompatible ↔
    a.Suits t := by
  rw [Suits, Ty.fit_eq, Ty.fit_eq, Ty.isCompatible_fitWith, Ty.isCompatible_fitWith,
    deopt_ty, deopt_ty]

lemma suits_any (ht : t.Free) : any.Suits t :=
  (Ty.isCompatible_fit_iff ⟨isCtx_ty _ _, ht.isCtx_eq⟩).2 (.inr (.inl rfl))

lemma suits_of_isAny (ht : t.Free) (hany : t.isAny) : a.Suits t :=
  (Ty.isCompatible_fit_iff ⟨isCtx_ty _ _, ht.isCtx_eq⟩).2 (.inr (.inr (.inl hany)))

lemma suits_basic {b : Basic} (hb : b.isData) (ht : t.Free) (hany : t.isAny = false) :
    (basic b none).Suits t ↔ t.isVoid = false ∧ b.kind.fits t.kind := by
  have hself : ∀ b : Basic, b.isData → (basic b none).isVoid = false ∧ b.kind.isVoid = false ∧
    b.kind.fits b.kind := by decide
  obtain ⟨hvoid, hfits⟩ := hself b hb
  rw [Suits, isCompatible_of_not_isCont (.inl rfl) ht.isCtx_eq, ht.equal_iff, hvoid, hany]
  refine ⟨?_, fun h => .inr (.inr (.inr ⟨rfl, h⟩))⟩
  rintro (heq | h | h | ⟨-, h⟩)
  · change t.kind.bare.isVoid = false ∧ b.kind.fits t.kind.bare
    rwa [bare_of_deopt heq]
  · cases h
  · cases h
  · exact h

lemma suits_cont (ha : a.access? = some k) (hk : k.isData) (ht : t.Free) (hany : t.isAny = false) :
    a.Suits t ↔ k.kind.family &&& t.kind.family ≠ 0 ∧ ∀ x ∈ (a.ty false).elem?, ∀ y ∈ t.elem?,
    (Ty.fit x y).isCompatible := by
  have hkind : a.kind = k.kind := by cases a <;> cases ha <;> rfl
  have hself : ∀ k : Access, k.kind.isCont ∧ k.kind.family &&& k.kind.family ≠ 0 := by decide
  cases hcont : t.kind.isCont with
  | true =>
    rw [Suits, isCompatible_of_access? ha ht.isCtx_eq hcont, ht.equal_iff]
    refine ⟨fun h => h.elim (fun heq => ⟨?_, fun x hx y hy => ?_⟩) id, .inr⟩
    · change k.kind.family &&& t.kind.bare.family ≠ 0
      rw [bare_of_deopt heq, hkind]
      exact (hself k).2
    · rw [heq, Ty.elem?_deopt] at hx
      rw [mem_unique hx hy, Ty.fit_self]
      rfl
  | false =>
    have hapart : ∀ k : Access, k.isData → ∀ j ∈ Kind.known, j.isCont = false → j.isCtx = false →
        k.kind.family &&& j.family = 0 ∧ (j.isVoid = false → k.kind.fits j = false) := by decide
    obtain ⟨hzero, hfits⟩ := hapart k hk t.kind.bare ht.bare_mem_known hcont ht.isCtx_eq
    rw [Suits, isCompatible_of_not_isCont (.inr hcont) ht.isCtx_eq, ht.equal_iff, hkind, hany]
    refine iff_of_false ?_ fun h => h.1 hzero
    rintro (heq | rfl | h | ⟨-, hvoid, h⟩)
    · have hcont' : t.kind.bare.isCont = false := hcont
      rw [bare_of_deopt heq, hkind, (hself k).1] at hcont'
      cases hcont'
    · cases ha
    · cases h
    · cases h.symm.trans (hfits hvoid)

lemma fits_join : ∀ b c u : Basic, b.isData → c.isData → b.join c = some u → ∀ k ∈ Kind.known,
    k.isCtx = false → k.isVoid = false → b.kind.fits k → c.kind.fits k → u.kind.fits k := by
  decide

lemma suits_of_join (ht : t.Free) (ha : a.isData) (hb : b.isData) (hsa : a.Suits t)
    (hsb : b.Suits t) (h : a.join b = some c) : c.Suits t := by
  fun_induction join a b generalizing t c with
  | case1 | case2 | case3 => cases h; assumption
  | case4 b d b' e _ =>
    obtain ⟨u, hu, rfl⟩ := map_eq_some_iff.1 h
    simp only [isData, and_eq_true, isNone_iff_eq_none] at ha hb
    obtain ⟨ha, rfl⟩ := ha
    obtain ⟨hb, rfl⟩ := hb
    cases hany : t.isAny with
    | true => exact suits_of_isAny ht hany
    | false =>
      obtain ⟨hvoid, hfits⟩ := (suits_basic ha ht hany).1 hsa
      refine (suits_basic (Basic.isData_join b b' u ha hb hu) ht hany).2 ⟨hvoid, ?_⟩
      have hfits' := ((suits_basic hb ht hany).1 hsb).2
      exact fits_join b b' u ha hb hu t.kind.bare ht.bare_mem_known ht.isCtx_eq hvoid hfits hfits'
  | case5 k l =>
    obtain ⟨u, hu, rfl⟩ := map_eq_some_iff.1 h
    obtain ⟨rfl, -⟩ := Access.eq_of_join k l u ha hb hu
    exact hsa
  | case6 k l p e =>
    obtain ⟨u, hu, rfl⟩ := map_eq_some_iff.1 h
    rw [isData, and_eq_true] at hb
    obtain ⟨-, rfl⟩ := Access.eq_of_join k l u ha hb.1 hu
    exact hsb
  | case7 k p e l =>
    obtain ⟨u, hu, rfl⟩ := map_eq_some_iff.1 h
    rw [isData, and_eq_true] at ha
    obtain ⟨rfl, -⟩ := Access.eq_of_join k l u ha.1 hb hu
    exact hsa
  | case8 k o e l p f ih =>
    obtain ⟨u, hu, hc⟩ := bind_eq_some_iff.1 h
    obtain ⟨d, hd, rfl⟩ := map_eq_some_iff.1 hc
    rw [isData, and_eq_true] at ha hb
    obtain ⟨rfl, rfl⟩ := Access.eq_of_join k l u ha.1 hb.1 hu
    cases hany : t.isAny with
    | true => exact suits_of_isAny ht hany
    | false =>
      simp only [suits_cont (a := cont _ _ _) rfl ha.1 ht hany, elem?_ty, mem_some_iff, forall_eq',
        isCompatible_ty] at hsa hsb ⊢
      exact ⟨hsa.1, fun y hy => ih (ht.elem hy) ha.2 hb.2 (hsa.2 y hy) (hsb.2 y hy) hd⟩
  | case9 => cases h

lemma joinable_suits (ht : t.Free) : Joinable fun a => a.isData ∧ a.Suits t where
  any := ⟨rfl, suits_any ht⟩
  join ha hb h := ⟨joinable_isData.join ha.1 hb.1 h, suits_of_join ht ha.1 hb.1 ha.2 hb.2 h⟩

/-! ## Wider targets -/

lemma of_widens (ht : t.Free) (h : (a.ty o).Widens t) :
    a.kind.family &&& t.kind.family = t.kind.family ∧ (a.kind.isVoid = false → t.isVoid = false) ∧
      ∀ y ∈ t.elem?, a.access?.isSome → ∃ x ∈ (a.ty false).elem?, x.Widens y := by
  rw [Ty.widens_iff_fitPlain (by rw [deopt_ty]; exact (ht.equal_iff a).1), deopt_ty] at h
  cases hequal : Ty.equal (a.ty false) t.deopt with
  | true =>
    have heq := (ht.equal_iff a).1 hequal
    change a.kind.family &&& t.kind.bare.family = t.kind.bare.family ∧
      (a.kind.isVoid = false → t.kind.bare.isVoid = false) ∧ _
    rw [bare_of_deopt heq, UInt32.and_self, heq, Ty.elem?_deopt]
    exact ⟨rfl, id, fun y hy _ => ⟨y, hy, .refl y⟩⟩
  | false =>
    obtain ⟨-, -, hvoid, h⟩ := (Ty.reaches_fitPlain le_rfl hequal).1 h.2
    have hvoid' : t.isVoid = false := by rw [← hvoid.2]; cases t <;> rfl
    have hkind : t.deopt.kind.isCont = t.kind.isCont ∧ t.deopt.kind.family = t.kind.family := by
      cases t <;> exact ⟨rfl, rfl⟩
    rw [isCont_ty, hkind.1] at h
    rw [← hkind.2, ← family_kind_ty a false, ← Ty.elem?_deopt t]
    split at h
    · obtain ⟨hfamily, helem⟩ := Ty.of_reaches_fitContainers (isObj_ty a false) h
      exact ⟨hfamily, fun _ => hvoid', fun y hy _ => helem y hy⟩
    · next hcont =>
      refine ⟨(Ty.reaches_fitKinds.1 h).1, fun _ => hvoid', fun y hy ha => absurd ?_ hcont⟩
      rw [Ty.elem?_deopt] at hy
      rw [ha, (and_eq_true_iff.1 (Ty.isElemCont_of_elem? hy)).1]
      rfl

end Shape

namespace Val

variable {t e : Ty} {v w : Val} {k : Access}

/-! ## Converted values -/

/-- Data without parts. -/
def Flat : Val → Prop
  | list _ | dict _ | fn _ => False
  | _ => True

/-- The type of what is converted to a kind without parts. -/
def scalar? (k : Kind) : Option Basic :=
  if k.bare = .bool then some .bool else if k.bare = .real then some .real
  else if k.isNum then some .int else if k.isChar then some .str
  else if k.bare = .typ then some .typ else none

lemma convert_cases (h : convert t v = .ok w) : w = v ∧ (t.isAny ∨ v = null) ∨ t.isAny = false ∧
    ((∃ b, scalar? t.kind = some b ∧ w.HasType b) ∨ t.kind.isKeyr ∧ w = v ∧ v.access? = some .dict ∨
      t.kind.isIdxr ∧ ∃ items, v = list items ∧
        (t.elem? = none ∧ w = v ∨ ∃ e ws, t.elem? = some e ∧ convertAll e items = .ok ws ∧
        w = list ws)) := by
  have hscalar {x : Option Val} {b : Basic} (hx : ∀ u ∈ x, u.basic? = some b)
      (hw : x.elim (.error (EvalCause.notConvertible v t)) Except.ok = .ok w) : w.HasType b := by
    cases x with
    | none => cases hw
    | some u =>
      cases hw
      exact hasType_of_basic? (hx w rfl)
  unfold convert at h
  split_ifs at h with hkeep hbool hreal hnum hchar htyp hkeyr hidxr
  · cases h
    cases v <;> simp_all
  all_goals
    refine .inr ⟨by simp_all, ?_⟩
  · exact .inl ⟨.bool, if_pos hbool, hscalar (x := some _) (by simp [basic?]) h⟩
  · exact .inl ⟨.real, by rw [scalar?, if_neg hbool, if_pos hreal], hscalar (by simp [basic?]) h⟩
  · exact .inl ⟨.int, by rw [scalar?, if_neg hbool, if_neg hreal, if_pos hnum],
      hscalar (by simp [basic?]) h⟩
  · refine .inl ⟨.str, ?_, hscalar (x := some _) (by simp [basic?]) h⟩
    rw [scalar?, if_neg hbool, if_neg hreal, if_neg hnum, if_pos hchar]
  · refine .inl ⟨.typ, ?_, hscalar (x := some _) (by simp [basic?]) h⟩
    rw [scalar?, if_neg hbool, if_neg hreal, if_neg hnum, if_neg hchar, if_pos htyp]
  · cases v <;> cases h
    exact .inr (.inl ⟨hkeyr, rfl, rfl⟩)
  · cases v with
    | list items =>
      refine .inr (.inr ⟨hidxr, items, rfl, ?_⟩)
      cases helem : t.elem? with
      | none =>
        rw [helem] at h
        cases h
        exact .inl ⟨rfl, rfl⟩
      | some e =>
        rw [helem] at h
        dsimp only at h
        cases hws : convertAll e items with
        | error => rw [hws] at h; cases h
        | ok ws =>
          rw [hws] at h
          cases h
          exact .inr ⟨e, ws, rfl, hws, rfl⟩
    | _ => cases h

lemma kinds_of_scalar : ∀ k ∈ Kind.known, k.isCtx = false →
    (∀ b, scalar? k = some b → k.isVoid = false ∧ b.kind.fits k) ∧
    (k.isKeyr → Access.dict.kind.family &&& k.family ≠ 0) ∧
    (k.isIdxr → Access.list.kind.family &&& k.family ≠ 0) := by
  decide

/-- The kinds that those of data widen to. -/
lemma kinds_of_family : (∀ k ∈ Kind.known, k.isCtx = false → k.isVoid = false →
    (Kind.any.family &&& k.family = k.family → k.isAny) ∧
      (Kind.bool.family &&& k.family = k.family → k = .bool) ∧
      (Kind.int.family &&& k.family = k.family → k ≠ .bool ∧ k ≠ .real ∧ k.isNum) ∧
      (Kind.real.family &&& k.family = k.family → k.bits ≠ Kind.num.bits → k ≠ .bool ∧ k = .real) ∧
      (Kind.str.family &&& k.family = k.family → k ≠ .bool ∧ k ≠ .real ∧ k.isNum = false ∧
      k.isChar)) ∧
    (∀ k ∈ Kind.known, k.isAny → ∀ b : Basic, b.isData → b.kind.family &&& k.family ≠ k.family) ∧
    (∀ k : Access, k.isData → ∀ j ∈ Kind.known, j.isCtx = false → j.isVoid = false →
    k.kind.family &&& j.family = j.family →
      (j.isAny = false ∧ j ≠ .bool ∧ j ≠ .real ∧ j.isNum = false ∧ j.isChar = false ∧ j ≠ .typ) ∧
        j.isKeyr = decide (k = .dict) ∧ j.isIdxr = decide (k = .list)) ∧
    ∀ b c : Basic, b.isData → b ≤ c → c.kind.isVoid = false ∧ b.kind.family &&& c.kind.family =
    c.kind.family := by
  refine ⟨?_, ?_, ?_, ?_⟩ <;> decide

/-- The property holds of all targets and values that conversion comes to: it goes into lists. -/
inductive Throughout (P : Ty → Val → Prop) : Ty → Val → Prop
  | mk {t : Ty} {v : Val} : P t v →
      (∀ items, v = list items → ∀ e ∈ t.elem?, ∀ x ∈ items, Throughout P e x) → Throughout P t v

/-- What the items of a dict have in common fits the element type that is asked for. -/
def DictFits (t : Ty) (v : Val) : Prop :=
  v.access? = some .dict → ∀ e ∈ t.elem?, ∀ c ∈ v.elemType?, (Ty.fit c e).isCompatible

lemma Throughout.list {P : Ty → Val → Prop} {k : Kind} {items : List Val} (hk : k.isElemCont)
    (h : P (.around k e) (list items)) (hitems : ∀ x ∈ items, Throughout P e x) :
    Throughout P (.around k e) (.list items) := by
  refine .mk h ?_
  rintro _ ⟨⟩ u hu
  cases (Subst.elem?_around hk e).symm.trans hu
  exact hitems

lemma Flat.hasType (h : v.Flat) : v = null ∨ ∃ b, v.HasType b := by
  cases v with
  | null => exact .inl rfl
  | bool | int | real | str | typ => exact .inr ⟨_, hasType_of_basic? rfl⟩
  | list | dict | fn => exact h.elim

lemma types_suits_cont {Q : Shape → Prop} (hQ : Shape.Joinable Q) (hdata : ∀ a, Q a → a.isData)
    (hw : w.access? = some k)
    (hitems : ∀ x ∈ w.items, Shape.Types Q x.typeOf) (ht : t.Free) (hany : t.isAny = false)
    (hmeet : k.kind.family &&& t.kind.family ≠ 0)
    (helem : ∀ e ∈ t.elem?, ∀ o a, Q a → w.elemType? = some (a.ty o) →
    (Ty.fit (a.ty o) e).isCompatible) : Shape.Types (fun a => a.isData ∧ a.Suits t) w.typeOf := by
  have hk := isData_of_access? hw
  refine types_of_items hQ hw hitems ⟨hk,
    (Shape.suits_cont rfl hk ht hany).2 ⟨hmeet, by simp [Shape.elem?_ty]⟩⟩ fun o a ha hc =>
    ⟨by simp [Shape.isData, hk, hdata a ha],
      (Shape.suits_cont rfl hk ht hany).2 ⟨hmeet, fun x hx y hy => ?_⟩⟩
  rw [Shape.elem?_ty, mem_some_iff] at hx
  exact hx ▸ helem y hy o a ha hc

lemma forall_of_convertAll {vs ws : List Val} (h : convertAll e vs = .ok ws) :
    ∀ w ∈ ws, ∃ v ∈ vs, convert e v = .ok w := by
  induction vs generalizing ws with
  | nil =>
    cases h
    simp
  | cons v vs ih =>
    rw [convertAll] at h
    cases hw : convert e v with
    | error => rw [hw] at h; cases h
    | ok w =>
      cases hus : convertAll e vs with
      | error => rw [hw, hus] at h; cases h
      | ok us =>
        rw [hw, hus] at h
        cases h
        refine List.forall_mem_cons.2 ⟨⟨v, by simp, hw⟩, fun u hu => ?_⟩
        obtain ⟨x, hx, hxu⟩ := ih hus u hu
        exact ⟨x, by simp [hx], hxu⟩

lemma types_suits_of_items (hv : v.Built Flat fun _ => True) (ht : t.Free) (hdict : DictFits t v)
    (ih : ∀ items, v = list items → ∀ e ∈ t.elem?, ∀ x ∈ items, ∀ w, convert e x = .ok w →
      Shape.Types (fun a => a.isData ∧ a.Suits e) w.typeOf)
    (h : convert t v = .ok w) : Shape.Types (fun a => a.isData ∧ a.Suits t) w.typeOf := by
  have hshape {v : Val} (hv : v.Built Flat fun _ => True) := hv.exists_shape fun _ => Flat.hasType
  have hitems : ∀ x ∈ v.items, Shape.Types (·.isData) x.typeOf := by
    cases hv with
    | leaf hv => cases v <;> simp_all [items, Flat]
    | list _ hitems => exact fun x hx => hshape (hitems x hx)
    | dict _ hitems => exact List.forall_mem_map.2 fun p hp => hshape (hitems p hp)
  obtain ⟨hscalar, hkeyr, hidxr⟩ := kinds_of_scalar t.kind.bare ht.bare_mem_known ht.isCtx_eq
  obtain ⟨rfl, hany | rfl⟩ | ⟨hany,
    ⟨b, hb, hw⟩ | ⟨hk, rfl, hw⟩ | ⟨hk, items, rfl, ⟨helem, rfl⟩ | ⟨e, ws, helem, hws, rfl⟩⟩⟩ :=
    convert_cases h
  · obtain ⟨x, hx, htype⟩ := hshape hv
    exact ⟨x, ⟨hx, Shape.suits_of_isAny ht hany⟩, htype⟩
  · exact ⟨(true, .any), ⟨rfl, Shape.suits_any ht⟩, rfl⟩
  · refine ⟨(false, .basic b none), ⟨by simpa [Shape.isData] using hw.1, ?_⟩, hw.2⟩
    exact (Shape.suits_basic hw.1 ht hany).2 (hscalar b hb)
  · exact types_suits_cont Shape.joinable_isData (fun _ => id) hw hitems ht hany (hkeyr hk)
      fun e he o a _ hc => hdict hw e he _ hc
  · exact types_suits_cont Shape.joinable_isData (fun _ => id) rfl hitems ht hany (hidxr hk)
      (by simp [helem])
  · refine types_suits_cont (Shape.joinable_suits (ht.elem helem)) (fun _ => And.left) rfl
      (fun w hw => ?_) ht hany (hidxr hk) ?_
    · obtain ⟨x, hx, hconvert⟩ := forall_of_convertAll hws w hw
      exact ih items rfl e helem x hx w hconvert
    · intro e' he' o a ha _
      cases helem.symm.trans he'
      exact (Shape.isCompatible_ty a o e).2 ha.2

lemma Built.types_suits (hv : v.Built Flat fun _ => True) (ht : t.Free)
    (hdicts : Throughout DictFits t v)
    (h : convert t v = .ok w) : Shape.Types (fun a => a.isData ∧ a.Suits t) w.typeOf := by
  induction hv generalizing t w with
  | leaf hv =>
    obtain ⟨hdict, -⟩ := hdicts
    refine types_suits_of_items (.leaf hv) ht hdict ?_ h
    rintro items rfl
    exact hv.elim
  | list hc hitems ih =>
    obtain ⟨hdict, hlists⟩ := hdicts
    refine types_suits_of_items (.list hc hitems) ht hdict ?_ h
    rintro _ ⟨⟩ e he x hx w hw
    exact ih x hx (ht.elem he) (hlists _ rfl e he x hx) hw
  | dict hc hitems ih =>
    obtain ⟨hdict, -⟩ := hdicts
    exact types_suits_of_items (.dict hc hitems) ht hdict (by simp) h

/-- Conversion reaches its target: what is made of a value for a type fits the type, if the dicts
that are kept on the way do. -/
theorem isCompatible_typeOf_construct (t : Ty) (v w : Val) (ht : t.Free)
    (hv : v.Built Flat fun _ => True)
    (hdicts : Throughout DictFits t v) (h : construct t [v] = .ok w) :
    (Ty.fit w.typeOf t).isCompatible := by
  obtain ⟨x, hx, htype⟩ := hv.types_suits ht hdicts h
  rw [htype]
  exact (Shape.isCompatible_ty _ _ _).2 hx.2

/-- Dicts in a list, one of them empty. -/
theorem isCompatible_typeOf_construct_dicts : let t := Ty.list (.keyr .num)
    let v := list [dict [("a", int 1)], dict []]
    t.Free ∧ v.Built Flat (fun _ => True) ∧ Throughout DictFits t v ∧ construct t [v] = .ok v ∧
      (Ty.fit v.typeOf t).isCompatible := by
  intro t v
  have ht : t.Free := .around rfl rfl rfl (.around rfl rfl rfl (.plain rfl rfl))
  have hdict : (dict [("a", int 1)]).Built Flat fun _ => True :=
    .dict trivial (by simpa using .leaf trivial)
  have hv : v.Built Flat fun _ => True :=
    .list trivial (by simpa using ⟨hdict, .dict trivial (by simp)⟩)
  have hfirst : DictFits (.keyr .num) (dict [("a", int 1)]) := by
    intro _ e he c hc
    cases (Subst.elem?_around (k := .keyr) rfl .num).symm.trans he
    cases (show (dict [("a", int 1)]).elemType? = some .int by cbv).symm.trans hc
    decide
  have hsecond : DictFits (.keyr .num) (dict []) := fun _ e _ c hc => by cases hc
  have hdicts : Throughout DictFits t v :=
    .list rfl (fun h => by cases h) (by simpa using ⟨.mk hfirst (by simp), .mk hsecond (by simp)⟩)
  have hw : construct t [v] = .ok v := by cbv
  exact ⟨ht, hv, hdicts, hw, isCompatible_typeOf_construct t v v ht hv hdicts hw⟩

/-- A dict of texts is taken for a dict of integers, and null for what a self reference stands for.
-/
theorem not_isCompatible_typeOf_construct : (let t := Ty.dict .int
    let v := dict [("a", str "x")]
    t.Free ∧ v.Built Flat (fun _ => True) ∧ construct t [v] = .ok v ∧
    (Ty.fit v.typeOf t).isCompatible = false) ∧ let t := (Ty.self 1).opt
    construct t [null] = .ok null ∧ (Ty.fit null.typeOf t).isCompatible = false := by
  constructor
  · exact ⟨.around rfl rfl rfl (.plain rfl rfl), .dict trivial (by simpa using .leaf trivial), by
      cbv, by cbv⟩
  · exact ⟨by cbv, by cbv⟩

/-! ## Values that are kept -/

def Number : Val → Prop
  | bool _ | int _ | real _ | str _ => True
  | _ => False

/-- A real is not converted to `num`. -/
def RealKept (t : Ty) (v : Val) : Prop := (∃ x, v = real x) → t.kind.bits ≠ Kind.num.bits

lemma Number.hasType (h : v.Number) : ∃ b, v.HasType b := by
  cases v with
  | bool | int | real | str => exact ⟨_, hasType_of_basic? rfl⟩
  | null | list | dict | typ | fn => exact h.elim

lemma convertAll_eq_self {vs : List Val} (h : ∀ v ∈ vs, convert e v = .ok v) :
    convertAll e vs = .ok vs := by
  induction vs with
  | nil => rfl
  | cons v vs ih =>
    obtain ⟨hv, hvs⟩ := List.forall_mem_cons.1 h
    rw [convertAll, hv, ih hvs]
    rfl

lemma Number.convert_eq_self {b : Basic} (hv : v.Number) (hb : v.HasType b) (ht : t.Free)
    (hreal : RealKept t v)
    (hfamily : b.kind.family &&& t.kind.family = t.kind.family) (hvoid : t.isVoid = false) :
    convert t v = .ok v := by
  obtain ⟨hkinds, hany, -⟩ := kinds_of_family
  have hkeep : t.isAny = false :=
    eq_false_iff.2 fun h => hany t.kind.bare ht.bare_mem_known h b hb.1 hfamily
  obtain ⟨-, hbool, hint, hreal', hstr⟩ := hkinds t.kind.bare ht.bare_mem_known ht.isCtx_eq hvoid
  unfold convert
  cases v with
  | bool b =>
    obtain rfl := hb.unique (hasType_of_basic? rfl)
    simp [hbool hfamily, isZero]
  | int n =>
    obtain rfl := hb.unique (hasType_of_basic? rfl)
    obtain ⟨hbool, hreal, (hnum : t.kind.isNum)⟩ := hint hfamily
    simp [hbool, hreal, hnum, toInt?]
  | real x =>
    obtain rfl := hb.unique (hasType_of_basic? rfl)
    obtain ⟨hbool, hreal⟩ := hreal' hfamily (hreal ⟨x, rfl⟩)
    rw [if_neg (by simp [hkeep]), if_neg hbool, if_pos hreal]
    rfl
  | str x =>
    obtain rfl := hb.unique (hasType_of_basic? rfl)
    obtain ⟨hbool, hreal, (hnum : t.kind.isNum = false), (hchar : t.kind.isChar)⟩ := hstr hfamily
    simp [hbool, hreal, hnum, hchar, plainText]
  | null | list | dict | typ | fn => exact hv.elim

lemma convert_eq_self_of_access? (hv : v.access? = some k) (ht : t.Free)
    (hfamily : k.kind.family &&& t.kind.family = t.kind.family) (hvoid : t.isVoid = false)
    (hitems : ∀ items, v = list items → ∀ e ∈ t.elem?, ∀ x ∈ items, convert e x = .ok x) :
    convert t v = .ok v := by
  obtain ⟨-, -, hkinds, -⟩ := kinds_of_family
  obtain ⟨⟨(hany : t.isAny = false), hbool, hreal, (hnum : t.kind.isNum = false),
    (hchar : t.kind.isChar = false), htyp⟩,
    (hkeyr : t.kind.isKeyr = _), (hidxr : t.kind.isIdxr = _)⟩ :=
    hkinds k (isData_of_access? hv) t.kind.bare ht.bare_mem_known ht.isCtx_eq hvoid hfamily
  unfold convert
  rw [if_neg (by cases v <;> cases hv <;> simp [hany]), if_neg hbool, if_neg hreal,
    if_neg (eq_false_iff.1 hnum), if_neg (eq_false_iff.1 hchar), if_neg htyp]
  cases v with
  | dict entries =>
    cases hv
    simp [hkeyr]
  | list items =>
    cases hv
    simp only [hkeyr, hidxr]
    cases he : t.elem? with
    | none => rfl
    | some e =>
      simp only [convertAll_eq_self (hitems items rfl e he)]
      rfl
  | _ => cases hv

lemma Inside.convert_eq_self {e : Shape} {o : Bool} (h : Inside Number e v) (ht : t.Free)
    (hreals : Throughout RealKept t v) (hwidens : (e.ty o).Widens t) : convert t v = .ok v := by
  have hcont : ∀ k : Access, k.kind.isVoid = false := by decide
  induction e generalizing t v o with
  | any =>
    obtain ⟨hfamily, hvoid, helem⟩ := Shape.of_widens ht hwidens
    have hany : t.isAny :=
      (kinds_of_family.1 t.kind.bare ht.bare_mem_known ht.isCtx_eq (hvoid rfl)).1 hfamily
    unfold convert
    simp [hany]
  | basic c d =>
    obtain ⟨hfamily, hvoid, helem⟩ := Shape.of_widens ht hwidens
    obtain ⟨-, hv, b, hb, hle⟩ := h
    obtain ⟨hreal, -⟩ := hreals
    obtain ⟨-, -, -, hbelow⟩ := kinds_of_family
    obtain ⟨hc, hbc⟩ := hbelow b c hb.1 hle
    refine hv.convert_eq_self hb ht hreal ?_ (hvoid hc)
    have hct : c.kind.family &&& t.kind.family = t.kind.family := hfamily
    rw [← hct, ← UInt32.and_assoc, hbc]
  | bare k =>
    obtain ⟨hfamily, hvoid, helem⟩ := Shape.of_widens ht hwidens
    refine convert_eq_self_of_access? h.1 ht hfamily (hvoid (hcont k)) fun items _ u hu => ?_
    obtain ⟨y, hy, -⟩ := helem u hu rfl
    rw [Shape.elem?_ty] at hy
    cases hy
  | cont k p e ih =>
    obtain ⟨hfamily, hvoid, helem⟩ := Shape.of_widens ht hwidens
    obtain ⟨hv, hinside⟩ := h
    obtain ⟨-, hlists⟩ := hreals
    refine convert_eq_self_of_access? hv ht hfamily (hvoid (hcont k)) ?_
    rintro items rfl u hu x hx
    obtain ⟨y, hy, hyu⟩ := helem u hu rfl
    rw [Shape.elem?_ty] at hy
    cases hy
    exact ih (hinside x hx) (ht.elem hu) (hlists items rfl u hu x hx) hyu

/-- Conversion to a wider type keeps the value, if its type is that of all its parts and no real is
converted to `num`. -/
theorem convert_eq_self_of_widens (t : Ty) (v : Val) (ht : t.Free)
    (hv : v.Built Number (Coherent Number))
    (hreals : Throughout RealKept t v) (h : v.typeOf.Widens t) : convert t v = .ok v := by
  obtain ⟨x, htype, hinside⟩ := hv.inside_typeOf fun _ => Number.hasType
  rw [htype] at h
  exact hinside.convert_eq_self ht hreals h

/-- A list of a list of reals and an empty one. -/
theorem convert_eq_self_of_widens_lists : let t := Ty.idxr (.idxr .real)
    let v := list [list [real 1.5], list []]
    t.Free ∧ v.Built Number (Coherent Number) ∧ Throughout RealKept t v ∧ v.typeOf.Widens t ∧
    convert t v = .ok v := by
  intro t v
  have ht : t.Free := .around rfl rfl rfl (.around rfl rfl rfl (.plain rfl rfl))
  have hreals (x : Float) : (list [real x]).elemType? = some .real := by cbv
  have htypes (x : Float) : (list [list [real x], list []]).elemType? = some (.list .real) := by cbv
  have hlists (x : Float) : (list [list [real x], list []]).typeOf.Widens t := by
    rw [Ty.Widens]; cbv
  have hfirst : (list [real 1.5]).Built Number Uniform :=
    .list (.inr ⟨_, hreals 1.5, rfl⟩) (by simpa using .leaf trivial)
  have hsecond : (list []).Built Number Uniform := .list (.inl rfl) (by simp)
  have huniform : v.Built Number Uniform :=
    .list (.inr ⟨_, htypes 1.5, rfl⟩) (by simpa using ⟨hfirst, hsecond⟩)
  have hkept : Throughout RealKept t v := by
    have hreal : Throughout RealKept .real (real 1.5) := .mk (fun _ => by decide) (by simp)
    have hfirst : Throughout RealKept (.idxr .real) (list [real 1.5]) :=
      .list rfl (by simp [RealKept]) (by simpa using hreal)
    have hsecond : Throughout RealKept (.idxr .real) (list []) :=
      .list rfl (by simp [RealKept]) (by simp)
    exact .list rfl (by simp [RealKept]) (by simpa using ⟨hfirst, hsecond⟩)
  have hv : v.Built Number (Coherent Number) := huniform.coherent
  exact ⟨ht, hv, hkept, hlists 1.5, convert_eq_self_of_widens t v ht hv hkept (hlists 1.5)⟩

/-- A real is a number, but converted to `num` it is cut off. The text in a mixed list has the type
of an integer by the list next to it, but cannot be converted. -/
theorem convert_ne_self :
    (∀ x, (real x).typeOf.Widens .num ∧ convert .num (real x) = .ok (int (Real.truncate x))) ∧
    (let v := list [list [int 1, str "a"], list [int 1]]
    v.typeOf.Widens (.list (.list .int)) ∧ convert (.list (.list .int)) v =
    .error (.notConvertible (str "a") .int)) := by
  refine ⟨fun x => ⟨?_, ?_⟩, ?_, ?_⟩
  · rw [typeOf, Ty.Widens]; decide
  · unfold convert; rfl
  · cbv
  · cbv

end Val

end Resolvent
