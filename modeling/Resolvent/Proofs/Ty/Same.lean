import Resolvent.Proofs.Ty.Normal

/-!
# The same type

Types compare as the same if they are equal, or if they are containers that hold the same.
-/

namespace Resolvent.Ty

open Option

variable {a b c t u : Ty} {n : String}

/-! ## Heads -/

def Same (a b : Ty) : Prop := fit a b = .same

lemma Same.refl (t : Ty) : t.Same t := fit_self t

lemma same_iff_reaches : a.Same b ↔ (fit a b).Reaches 5 := (normal_fit a b).eq_same_iff

/-- Containers whose kinds are of one family; objects have the same name, and detail on both sides
or on none. -/
structure Matches (a b : Ty) : Prop where
  ctx : a.kind.isCtx = false ∧ b.kind.isCtx = false
  cont : a.kind.isCont ∧ b.kind.isCont
  family : a.kind.family = b.kind.family
  fields : a.kind.isObj → a.isDetailed = b.isDetailed ∧ a.name = b.name

namespace Matches

lemma symm (h : a.Matches b) : b.Matches a where
  ctx := h.ctx.symm
  cont := h.cont.symm
  family := h.family.symm
  fields hobj := by
    obtain ⟨hdetail, hname⟩ := h.fields (by rwa [Kind.isObj_congr h.family])
    exact ⟨hdetail.symm, hname.symm⟩

lemma trans (hab : a.Matches b) (hbc : b.Matches c) : a.Matches c where
  ctx := ⟨hab.ctx.1, hbc.ctx.2⟩
  cont := ⟨hab.cont.1, hbc.cont.2⟩
  family := hab.family.trans hbc.family
  fields hobj := by
    obtain ⟨hdetail, hname⟩ := hab.fields hobj
    obtain ⟨hdetail', hname'⟩ := hbc.fields (by rwa [← Kind.isObj_congr hab.family])
    exact ⟨hdetail.trans hdetail', hname.trans hname'⟩

lemma deopt_iff : a.deopt.Matches c.deopt ↔ a.Matches c := by
  constructor <;> intro h <;> cases a <;> cases c <;> exact ⟨h.ctx, h.cont, h.family, h.fields⟩

end Matches

def Agrees (a b : Ty) : Prop := a.deopt = b.deopt ∨ a.Matches b

namespace Agrees

lemma symm (h : a.Agrees b) : b.Agrees a := h.imp Eq.symm Matches.symm

lemma trans (hab : a.Agrees b) (hbc : b.Agrees c) : a.Agrees c := by
  rcases hab with hab | hab
  · rcases hbc with hbc | hbc
    · exact .inl (hab.trans hbc)
    · exact .inr (by rwa [← Matches.deopt_iff, hab, Matches.deopt_iff])
  · rcases hbc with hbc | hbc
    · exact .inr (by rwa [← Matches.deopt_iff, ← hbc, Matches.deopt_iff])
    · exact .inr (hab.trans hbc)

lemma isAny (h : a.Agrees c) (hany : a.isAny) : c.isAny := by
  rcases h with heq | hmatches
  · rwa [← isAny_deopt, ← heq, isAny_deopt]
  · exact absurd hany (Bool.eq_false_iff.1 (Kind.isCont_other hmatches.cont.1).1)

end Agrees

/-! ## Parts -/

/-- Each field finds its like: the source has no more fields than the destination, and those of the
destination are found. Then the fields of each name are alike, or there are none on either side. -/
lemma rel_field?_iff {r : Ty → Ty → Prop} (ha : (a.params.map fun p => Param.key p.1).Nodup)
    (hc : Param.apart (c.params.map (·.1))) :
    (a.params.length ≤ c.params.length ∧ ∀ p ∈ c.params, ∃ q, a.field? (Param.key p.1) = some q ∧
    r q.2 p.2) ↔ ∀ n, Option.Rel r ((a.field? n).map (·.2)) ((c.field? n).map (·.2)) := by
  obtain ⟨hkeys, hnodup⟩ := Param.apart_iff.1 hc
  have hfield {n : String} {q : Param} : a.field? n = some q ↔ q ∈ a.params ∧
    Param.key q.1 = Param.key n := field?_eq_some_iff ha
  have hfield' {n : String} {p : Param} : c.field? n = some p ↔ p ∈ c.params ∧
    Param.key p.1 = Param.key n := field?_eq_some_iff hnodup
  constructor
  · rintro ⟨hlen, hfound⟩ n
    -- The keys of the destination are among those of the source, which has no more.
    have hsub : (c.params.map fun p => Param.key p.1) ⊆ a.params.map fun p => Param.key p.1 := by
      intro key hkey
      obtain ⟨p, hp, rfl⟩ := List.mem_map.1 hkey
      obtain ⟨q, hq, -⟩ := hfound p hp
      exact List.mem_map.2 ⟨q, (hfield.1 hq).1, (hfield.1 hq).2.trans (hkeys p hp)⟩
    have hperm := (hnodup.subperm hsub).perm_of_length_le (by simpa using hlen)
    cases hp : c.field? n with
    | some p =>
      obtain ⟨hmem, hkey⟩ := hfield'.1 hp
      obtain ⟨q, hq, hr⟩ := hfound p hmem
      rw [field?_congr ((hkeys p hmem).trans hkey)] at hq
      rw [hq]
      exact .some hr
    | none =>
      cases hq : a.field? n with
      | none => exact .none
      | some q =>
        obtain ⟨hmem, hkey⟩ := hfield.1 hq
        obtain ⟨p, hp', hkey'⟩ := List.mem_map.1 (hperm.mem_iff.2 (List.mem_map_of_mem hmem))
        have hsome := hfield'.2 ⟨hp', hkey'.trans hkey⟩
        rw [hp] at hsome
        cases hsome
  · intro hrel
    have hsub : (a.params.map fun p => Param.key p.1) ⊆ c.params.map fun p => Param.key p.1 := by
      intro key hkey
      obtain ⟨q, hq, rfl⟩ := List.mem_map.1 hkey
      have hrelq := hrel q.1
      rw [hfield.2 ⟨hq, rfl⟩] at hrelq
      cases hp : c.field? q.1 with
      | none =>
        rw [hp] at hrelq
        cases hrelq
      | some p => exact List.mem_map.2 ⟨p, hfield'.1 hp⟩
    refine ⟨by simpa using ha.length_le_of_subset hsub, fun p hp => ?_⟩
    have hrelp := hrel p.1
    rw [hfield'.2 ⟨hp, rfl⟩] at hrelp
    rw [field?_congr (hkeys p hp)]
    cases hq : a.field? p.1 with
    | none =>
      rw [hq] at hrelp
      cases hrelp
    | some q =>
      rw [hq, map_some, map_some, rel_some_some] at hrelp
      exact ⟨q, rfl, hrelp⟩

/-! ## Distinct keys -/

mutual

/-- The field keys of all objects outside of constraints are distinct. -/
def fieldsDistinct : Ty → Bool
  | plain _ => true
  | detailed k _ ps _ => k.isVar || (!k.isObj || decide (ps.map fun p => Param.key p.1).Nodup) &&
      fieldsDistinctParams ps

def fieldsDistinctParams : List (String × Ty) → Bool
  | [] => true
  | (_, t) :: ps => t.fieldsDistinct && fieldsDistinctParams ps

end

lemma fieldsDistinctParams_iff {ps : List Param} : fieldsDistinctParams ps ↔
    ∀ p ∈ ps, p.2.fieldsDistinct := by
  induction ps with
  | nil => simp [fieldsDistinctParams]
  | cons p ps ih => simp [fieldsDistinctParams, ih]

lemma fieldsDistinct_iff (hv : t.kind.isVar = false) : t.fieldsDistinct ↔
    (t.kind.isObj → (t.params.map fun p => Param.key p.1).Nodup) ∧ ∀ p ∈ t.params,
    p.2.fieldsDistinct := by
  cases t with
  | plain k => simp [fieldsDistinct, params]
  | detailed k name ps cs =>
    have hvar : k.isVar = false := hv
    cases hobj : k.isObj <;> simp [fieldsDistinct, hvar, fieldsDistinctParams_iff, kind,
      params, hobj]

/-- A type that can be written, without self references and with distinct field keys. -/
structure Distinct (t : Ty) : Prop where
  notated : t.Notated
  selfFree : t.selfFree
  fields : t.fieldsDistinct

lemma Distinct.part (h : t.Distinct) (hv : t.kind.isVar = false) {p : Param} (hp : p ∈ t.params) :
    p.2.Distinct where
  notated := h.notated.part hp
  selfFree := (selfFree_iff.1 h.selfFree).2 p hp
  fields := ((fieldsDistinct_iff hv).1 h.fields).2 p hp

lemma Orderly.fieldsDistinct (h : t.Orderly true true) : t.fieldsDistinct := by
  induction h with
  | @var t hv _ =>
    cases t with
    | plain k => rfl
    | detailed k name ps cs =>
      have hvar : k.isVar := hv
      simp [Ty.fieldsDistinct, hvar]
  | mk hv _ hapart _ ih =>
    exact (fieldsDistinct_iff hv).2 ⟨fun hobj => (Param.apart_iff.1 (hapart rfl hobj)).2, ih⟩

lemma Legible.distinct (h : t.Legible) : t.Distinct :=
  ⟨h.notated, h.selfFree, h.orderly.fieldsDistinct⟩

/-! ## Comparing as the same -/

lemma part?_deopt (t : Ty) (n : String) : t.deopt.part? n = t.part? n := by cases t <;> rfl

lemma fieldsDistinct_deopt (t : Ty) : t.deopt.fieldsDistinct = t.fieldsDistinct := by
  cases t <;> rfl

/-- Containers that are not equal compare as the same if their heads match and if what they say
about each part compares as the same. -/
lemma reaches_fitContainers_same (hra : a.Regular) (hrc : c.Regular) (ha : a.fieldsDistinct)
    (hc : c.Orderly true true)
    (hne : a.deopt ≠ c.deopt) (hctx : a.kind.isCtx = false ∧ c.kind.isCtx = false)
    (hcont : a.kind.isCont ∧ c.kind.isCont) : (fitContainers fit a c).Reaches 5 ↔ a.Matches c ∧
    ∀ n, Option.Rel Same (a.part? n) (c.part? n) := by
  have hother (hobj : a.kind.isObj ≠ c.kind.isObj) : ¬ a.Matches c :=
    fun h => hobj (Kind.isObj_congr h.family)
  cases hk : fitContKinds a.kind c.kind with
  | none =>
    rw [fitContainers, hk]
    refine iff_of_false (by simp) fun h => ?_
    have hzero := fitContKinds_eq_none_iff.1 hk
    rw [← h.1.family, UInt32.and_self] at hzero
    exact Kind.family_ne_zero_of_isCont hcont.1 hzero
  | some kinds =>
    have hkinds : kinds.Reaches 5 ↔ a.kind.family = c.kind.family := by
      rw [reaches_fitContKinds hk le_rfl]
      exact ⟨fun h => h.2 rfl, fun h => by simp [h]⟩
    cases hao : a.kind.isObj with
    | false =>
      cases hco : c.kind.isObj with
      | true => exact iff_of_false (by simp [fitContainers, hk,
          hao, hco]) fun h => hother (by simp [hao, hco]) h.1
      | false =>
        have hrel : Option.Rel Same a.elem? c.elem? ↔
          (∀ x ∈ a.elem?, ∀ y ∈ c.elem?, (fit x y).Reaches 5) ∧
            (c.elem?.isSome → a.elem?.isSome) ∧ (a.elem?.isSome → c.elem?.isSome) := by
          cases a.elem? <;> cases c.elem? <;> simp [same_iff_reaches]
        have hmatches : a.Matches c ↔ a.kind.family = c.kind.family :=
          ⟨fun h => h.family, fun h => ⟨hctx, hcont, h, fun hobj => by simp [hao] at hobj⟩⟩
        simp [reaches_fitContainers_elem hk le_rfl hao hco, part?_of_isElemCont hao,
          part?_of_isElemCont hco, hrel, hkinds, hmatches]
    | true =>
      cases hco : c.kind.isObj with
      | false =>
        rw [reaches_fitContainers_fields hk hao hco, hkinds]
        refine iff_of_false (fun h => ?_) fun h => hother (by simp [hao, hco]) h.1
        simpa [hao, hco] using Kind.isObj_congr h.1
      | true =>
        have hnodup := ((fieldsDistinct_iff (Kind.isVar_eq_false_of_isCtx hctx.1)).1 ha).1 hao
        have hfamily := (Kind.family_of_isObj hra.isKnown hao).trans
          (Kind.family_of_isObj hrc.isKnown hco).symm
        have hfound : (∀ p ∈ c.params, Found 5 fit a p) ↔
            ∀ p ∈ c.params, ∃ q, a.field? (Param.key p.1) = some q ∧ q.2.Same p.2 := by
          refine forall₂_congr fun p _ => ?_
          rw [Found]
          cases a.field? (Param.key p.1) <;> simp [same_iff_reaches]
        simp only [part?_of_isObj hao, part?_of_isObj hco]
        rw [fitContainers_of_isObj ⟨hra.isKnown, hao⟩ ⟨hrc.isKnown, hco⟩,
          reaches_fitObjects (by decide), hfound, ← rel_field?_iff hnodup (hc.apart rfl hco)]
        constructor
        · rintro ⟨hdetail, hparts, hhead⟩
          obtain ⟨hdetail', hname, hlen⟩ := hhead rfl
          exact ⟨⟨hctx, hcont, hfamily, fun _ => ⟨hdetail.trans hdetail'.symm, hname⟩⟩, hlen,
            hparts hdetail'⟩
        · rintro ⟨hmatches, hlen, hparts⟩
          obtain ⟨hdetail, hname⟩ := hmatches.fields hao
          have hdetailed : a.isDetailed := by
            by_contra hplain
            rw [Bool.not_eq_true] at hplain
            exact hne (deopt_eq_of_plain hra hrc ⟨hplain, hdetail ▸ hplain⟩ hctx hfamily)
          exact ⟨hdetailed, fun _ => hparts, fun _ => ⟨hdetail ▸ hdetailed, hname, hlen⟩⟩

lemma rel_refl (x : Option Ty) : Option.Rel Same x x := by
  cases x with
  | none => exact .none
  | some t => exact .some (.refl t)

/-- Types compare as the same if their marks are alike, if their heads agree, and if what they say
about each part compares as the same. -/
lemma same_iff (ha : a.Distinct) (hc : c.Legible) : a.Same c ↔
    (a.isOpt = c.isOpt ∨ a.isAny) ∧ a.Agrees c ∧ ∀ n, Option.Rel Same (a.part? n) (c.part? n) := by
  have hra := ha.notated.regular.deopt
  have hrc := hc.notated.regular.deopt
  have hmarks : (a.isOpt → c.isOpt) ∧ (5 = 5 → c.isOpt → a.isOpt) ↔ a.isOpt = c.isOpt := by
    cases a.isOpt <;> cases c.isOpt <;> simp
  rw [same_iff_reaches, fit_eq, reaches_fitWith (by decide), hmarks]
  by_cases heq : a.deopt = c.deopt
  · have hany : a.isAny = c.isAny := by rw [← isAny_deopt, heq, isAny_deopt]
    have hrel (n : String) : Option.Rel Same (a.part? n) (c.part? n) := by
      rw [← part?_deopt, heq, part?_deopt]
      exact rel_refl _
    have hsame : (fitPlain fit a.deopt c.deopt).Reaches 5 := by
      rw [fitPlain, heq, if_pos (equal_self _)]
      decide
    have hagrees : a.Agrees c := .inl heq
    simp [hsame, hagrees, hrel, hany, or_comm]
  · have hequal : equal a.deopt c.deopt = false :=
      Bool.eq_false_iff.2 fun h => heq (deopt_eq_of_equal ha.selfFree hc.selfFree h)
    have hiff := reaches_fitContainers_same hra hrc (by rw [fieldsDistinct_deopt, ha.fields])
      hc.orderly.deopt (by rwa [deopt_deopt, deopt_deopt])
    simp only [Matches.deopt_iff, part?_deopt] at hiff
    have hkinds : ¬ (fitKinds a.deopt c.deopt).Reaches 5 := fun h =>
      (lesser_fitKinds _ _).2 ((lesser_fitKinds _ _).1.eq_same_iff.2 h)
    rw [reaches_fitPlain (by decide) hequal, Agrees, or_iff_right heq]
    constructor
    · rintro ⟨hopt, hctx, hany, -, hsame⟩
      rw [isAny_deopt, isAny_deopt] at hany
      split at hsame
      · next hcont => exact ⟨by simpa [hany] using hopt,
          (hiff hctx (Bool.and_eq_true_iff.1 hcont)).1 hsame⟩
      · exact absurd hsame hkinds
    · rintro ⟨hopt, hparts⟩
      have hmatches := Matches.deopt_iff.2 hparts.1
      obtain ⟨hany, hvoid⟩ := Kind.isCont_other hmatches.cont.1
      obtain ⟨hany', hvoid'⟩ := Kind.isCont_other hmatches.cont.2
      refine ⟨hopt.elim (fun h => .inr (.inr h)) .inl, hmatches.ctx, ⟨hany, hany'⟩,
        ⟨hvoid, hvoid'⟩, ?_⟩
      rw [hmatches.cont.1, hmatches.cont.2]
      exact (hiff hmatches.ctx hmatches.cont).2 hparts

/-! ## Symmetry and transitivity -/

lemma Distinct.part?_of_mem (h : t.Distinct) (hcont : t.kind.isCont) {p : Param}
    (hp : p ∈ t.params) : t.part? p.1 = some p.2 := by
  have hv := Kind.isVar_eq_false_of_isCont hcont
  cases hobj : t.kind.isObj with
  | true =>
    have hfield := (field?_eq_some_iff (((fieldsDistinct_iff hv).1 h.fields).1 hobj)).2 ⟨hp, rfl⟩
    rw [part?_of_isObj hobj, hfield]
    rfl
  | false =>
    have helem : t.kind.isElemCont := by rw [Kind.isElemCont, hcont, hobj]; rfl
    have hlen := h.notated.regular.elem helem
    rw [part?_of_isElemCont hobj, elem?, if_pos helem]
    cases hps : t.params with
    | nil => simp [hps] at hp
    | cons q ps =>
      obtain rfl : ps = [] := List.length_eq_zero_iff.1 (by simpa [hps] using hlen)
      rw [hps, List.mem_singleton] at hp
      rw [hp]
      rfl

lemma Legible.exists_of_part? (h : t.Legible) (hu : t.part? n = some u) :
    u.Legible ∧ ∃ p ∈ t.params, p.2 = u := by
  have hv := Kind.isVar_eq_false_of_isCont (isCont_of_part? h.notated.isKnown hu)
  obtain ⟨p, hp, rfl, -⟩ := Ty.exists_of_part? hu
  exact ⟨h.part hv hp, p, hp, rfl⟩

lemma Same.legible (ha : a.Distinct) (hc : c.Legible) (h : a.Same c) : a.Legible := by
  refine ⟨ha.notated, ha.selfFree, ?_⟩
  induction a using induct generalizing c with
  | node a ih =>
    obtain ⟨-, heq | hmatches, hrel⟩ := (same_iff ha hc).1 h
    · have hbits : a.kind.bits = c.kind.bits := by
        simpa [deopt, Kind.deopt, Kind.withOptional] using congrArg (·.kind.bits) heq
      exact hc.orderly.congr hbits (by rw [← params_deopt, heq, params_deopt])
    · have hv := Kind.isVar_eq_false_of_isCont hmatches.cont.1
      have hpart {p : Param} (hp : p ∈ a.params) : ∃ u, c.part? p.1 = some u ∧ p.2.Same u := by
        have hreln := hrel p.1
        rw [ha.part?_of_mem hmatches.cont.1 hp] at hreln
        generalize c.part? p.1 = x at hreln
        cases hreln with
        | some hsame => exact ⟨_, rfl, hsame⟩
      refine .mk hv (fun _ => rfl) (fun _ hobj => Param.apart_iff.2 ⟨fun p hp => ?_, ?_⟩)
        fun p hp => ?_
      · obtain ⟨u, hu, -⟩ := hpart hp
        have hobj' : c.kind.isObj := by rwa [← Kind.isObj_congr hmatches.family]
        obtain ⟨q, hq, -, hkey⟩ := exists_of_part? hu
        rw [← hkey hobj']
        exact (Param.apart_iff.1 (hc.orderly.apart rfl hobj')).1 q hq
      · exact ((fieldsDistinct_iff hv).1 ha.fields).1 hobj
      · obtain ⟨u, hu, hsame⟩ := hpart hp
        exact ih p hp (ha.part hv hp) (hc.exists_of_part? hu).1 hsame

lemma Same.symm (ha : a.Legible) (hb : b.Legible) (h : a.Same b) : b.Same a := by
  induction a using induct generalizing b with
  | node a ih =>
    obtain ⟨hopt, hhead, hrel⟩ := (same_iff ha.distinct hb).1 h
    refine (same_iff hb.distinct ha).2 ⟨hopt.imp Eq.symm hhead.isAny, hhead.symm, fun n => ?_⟩
    have hreln := hrel n
    generalize hx : a.part? n = x, hy : b.part? n = y at hreln
    cases hreln with
    | none => exact .none
    | some hsame =>
      obtain ⟨hla, p, hp, rfl⟩ := ha.exists_of_part? hx
      exact .some (ih p hp hla (hb.exists_of_part? hy).1 hsame)

lemma Same.trans (ha : a.Legible) (hb : b.Legible) (hc : c.Legible) (hab : a.Same b)
    (hbc : b.Same c) : a.Same c := by
  induction a using induct generalizing b c with
  | node a ih =>
    obtain ⟨hopt, hhead, hrel⟩ := (same_iff ha.distinct hb).1 hab
    obtain ⟨hopt', hhead', hrel'⟩ := (same_iff hb.distinct hc).1 hbc
    refine (same_iff ha.distinct hc).2 ⟨?_, hhead.trans hhead', fun n => ?_⟩
    · rcases hopt with hopt | hany
      · exact hopt'.imp hopt.trans hhead.symm.isAny
      · exact .inr hany
    · have hreln := hrel n
      have hreln' := hrel' n
      generalize hx : a.part? n = x, hy : b.part? n = y, hz : c.part? n = z at hreln hreln'
      cases hreln with
      | none => exact hreln'
      | some hsame =>
        cases hreln' with
        | some hsame' =>
          obtain ⟨hla, p, hp, rfl⟩ := ha.exists_of_part? hx
          exact .some (ih p hp hla (hb.exists_of_part? hy).1 (hc.exists_of_part? hz).1 hsame hsame')

/-- Types that are read, without self references and with distinct field keys. To compare as the
same is reflexive. It is symmetric and transitive where the keys of the last type are keys. No
result, for whatever types, comes with classes if it says that the types are the same or that they
do not fit. -/
theorem same_equivalence {sa sb sc : String} (ha : parse sa = .ok a) (hb : parse sb = .ok b)
    (hc : parse sc = .ok c) (hself : a.selfFree ∧ b.selfFree ∧ c.selfFree)
    (hdistinct : a.fieldsDistinct ∧ b.fieldsDistinct ∧ c.fieldsDistinct) :
    fit a a = .same ∧ (b.fieldsApart → fit a b = .same → fit b a = .same) ∧
      (c.fieldsApart → fit a b = .same → fit b c = .same → fit a c = .same) ∧
      ∀ s d, (fit s d).level = Fit.sameLevel ∨ (fit s d).level = Fit.noneLevel →
      (fit s d).classes = 0 := by
  have hda : a.Distinct := ⟨notated_of_parse ha, hself.1, hdistinct.1⟩
  have hdb : b.Distinct := ⟨notated_of_parse hb, hself.2.1, hdistinct.2.1⟩
  refine ⟨fit_self a, fun hapart hab => ?_, fun hapart hab hbc => ?_, fun s d hlevel => ?_⟩
  · have hlb := legible_of_parse hb hself.2.1 hapart
    exact Same.symm (Same.legible hda hlb hab) hlb hab
  · have hlc := legible_of_parse hc hself.2.2 hapart
    have hlb := Same.legible hdb hlc hbc
    exact Same.trans (Same.legible hda hlb hab) hlb hlc hab hbc
  · refine (normal_fit s d).classes_eq ?_
    rcases hlevel with h | h
    · exact .inr (congrArg UInt16.toNat h)
    · exact .inl (congrArg UInt16.toNat h)

/-- Three objects of the same fields, in different orders and with different marks. -/
theorem same_equivalence_reordered : let a : Ty := .obj "" [("x", .int), ("y", .any)]
    let b : Ty := .obj "" [("y?", Ty.any.opt), ("x", .int)]
    let c : Ty := .obj "" [("x?", .int), ("y", Ty.any.opt)]
    equal a b = false ∧ equal b c = false ∧ equal a c = false ∧
      fit a b = .same ∧ fit b a = .same ∧ fit b c = .same ∧ fit a c = .same := by
  intro a b c
  have ha : parse "(obj +x int +y any)" = .ok a := by cbv
  have hb : parse "(obj +y? any? +x int)" = .ok b := by cbv
  have hc : parse "(obj +x? int +y any?)" = .ok c := by cbv
  have hab : fit a b = .same := by cbv
  have hbc : fit b c = .same := by cbv
  obtain ⟨-, hsymm, htrans, -⟩ := same_equivalence ha hb hc (by decide) (by cbv)
  exact ⟨by decide, by decide, by decide, hab, hsymm (by cbv) hab, hbc, htrans (by cbv) hab hbc⟩

/-- A field is looked up by the key of its key. A name with more marks than one finds a name with
one mark less, and not the other way round. -/
theorem same_not_symmetric : let a : Ty := .obj "" [("x", .int)]
    let b : Ty := .obj "" [("x??", .int)]
    let c : Ty := .obj "" [("x???", .int)]
    parse "(obj +x int)" = .ok a ∧ parse "(obj +x?? int)" = .ok b ∧
    parse "(obj +x??? int)" = .ok c ∧ (a.fieldsDistinct ∧ b.fieldsDistinct ∧ c.fieldsDistinct) ∧
      fit a b = .same ∧ fit b a = .none ∧ fit b c = .same ∧
      fit a c = Fit.widen.adding Fit.elemBit := by
  intro a b c
  exact ⟨by cbv, by cbv, by cbv, by cbv, by cbv, by cbv, by cbv, by cbv⟩

end Resolvent.Ty
