import Resolvent.Proofs.Subst.Step
import Mathlib.Data.Multiset.OrderedMonoid

/-!
# Orderly types

The variables of a type, each as often as it occurs outside of constraints, and the types whose
parts can be taken apart without meeting a variable twice: the fields of an object have different
keys, so that no field is found for two others.
-/

namespace Resolvent

open List Bool

namespace Param

/-- The keys of the names are keys again, and no two are the same. -/
def apart (names : List String) : Bool :=
  names.all (fun n => key (key n) == key n) && decide (names.map key).Nodup

lemma apart_iff {ps : List Param} : apart (ps.map (·.1)) ↔ (∀ p ∈ ps, key (key p.1) = key p.1) ∧
    (ps.map fun p => key p.1).Nodup := by
  simp [apart, Function.comp_def]

end Param

namespace Ty

variable {t u : Ty} {ts cands : List Ty} {ps qs : List Param} {k : Kind} {keyed alts : Bool}
  {name : String} {p q : Param}

/-! ## Variables with multiplicity -/

def bag (t : Ty) : Multiset Nat := t.outerVars

def bagParams (ps : List Param) : Multiset Nat := (ps.map (·.2.bag)).sum

@[simp] lemma bagParams_nil : bagParams [] = 0 := rfl

@[simp] lemma bagParams_cons (p : Param) (ps : List Param) :
    bagParams (p :: ps) = p.2.bag + bagParams ps := by
  simp [bagParams]

lemma mem_bag {i : Nat} : i ∈ t.bag ↔ i ∈ t.outerVars := Iff.rfl

lemma bag_of_isVar (h : t.kind.isVar) : t.bag = {t.kind.slot} := by
  rw [bag, outerVars_of_isVar h]
  rfl

lemma coe_flatMap_outerVars (ts : List Ty) :
    (ts.flatMap outerVars : Multiset Nat) = (ts.map bag).sum := by
  induction ts with
  | nil => rfl
  | cons t ts ih =>
    rw [flatMap_cons, ← Multiset.coe_add, ih]
    rfl

lemma bag_of_not_isVar (h : t.kind.isVar = false) : t.bag = bagParams t.params := by
  have hparts : t.outerVars = (t.params.map (·.2)).flatMap outerVars := by
    rw [outerVars_of_not_isVar h, flatMap_map]
  rw [bag, hparts, coe_flatMap_outerVars, List.map_map]
  rfl

@[simp] lemma bag_optIf (t : Ty) (b : Bool) : (t.optIf b).bag = t.bag := by simp [bag]

@[simp] lemma bag_deopt (t : Ty) : t.deopt.bag = t.bag := by simp [bag]

@[simp] lemma bag_plain (hk : k.isVar = false) : (plain k).bag = 0 := bag_of_not_isVar hk

lemma bag_around (hk : k.isVar = false) (t : Ty) : (around k t).bag = t.bag := by
  rw [bag_of_not_isVar (show (around k t).kind.isVar = false from hk)]
  simp [around, params]

lemma bag_le_bagParams (hp : p ∈ ps) : p.2.bag ≤ bagParams ps :=
  single_le_sum (fun _ _ => Multiset.zero_le _) _ (List.mem_map_of_mem hp)

lemma bagParams_congr (h : ps.map (·.2.bag) = qs.map (·.2.bag)) : bagParams ps = bagParams qs := by
  rw [bagParams, bagParams, h]

@[simp] lemma bag_settled (t : Ty) : t.settled.bag = t.bag := by
  induction t using induct with
  | node t ih =>
    cases hv : t.kind.isVar with
    | true => rw [settled_of_isVar hv]
    | false =>
      rw [settled_of_not_isVar hv, bag_of_not_isVar (by simpa using hv), bag_of_not_isVar hv,
        params_withParams_map]
      refine bagParams_congr ?_
      rw [List.map_map]
      exact map_congr_left ih

lemma bag_elem?_le (h : t.kind.isVar = false) (hu : t.elem? = some u) : u.bag ≤ t.bag := by
  obtain ⟨p, hp, rfl⟩ := exists_param_of_elem? hu
  rw [bag_of_not_isVar h]
  exact bag_le_bagParams hp

lemma foldl_addCandidate_sublist (cands ts : List Ty) :
    (ts.foldl addCandidate cands).Sublist (cands ++ ts) := by
  induction ts generalizing cands with
  | nil => simp
  | cons t ts ih =>
    refine (ih (addCandidate cands t)).trans ?_
    unfold addCandidate
    split
    · exact Sublist.append_left (sublist_cons_self t ts) cands
    · simp

lemma sum_bag_candidates (ts : List Ty) :
    ((ts.flatMap candidates).map bag).sum = (ts.map bag).sum := by
  induction ts with
  | nil => rfl
  | cons t ts ih =>
    have hfirst : (t.candidates.map bag).sum = t.bag := by
      unfold candidates
      split
      · next halt =>
        rw [bag_of_not_isVar (Kind.isVar_eq_false_of_isAlt halt), List.map_map]
        rfl
      · simp
    rw [flatMap_cons, map_append, sum_append, hfirst, ih, map_cons, sum_cons]

lemma bag_alt_le (ts : List Ty) : (alt ts).bag ≤ (ts.map bag).sum := by
  have hflat : ((flat ts).map bag).sum ≤ (ts.map bag).sum := by
    rw [← sum_bag_candidates ts]
    have hsub : (flat ts).Sublist (ts.flatMap candidates) := foldl_addCandidate_sublist [] _
    exact (hsub.map bag).sum_le_sum fun _ _ => Multiset.zero_le _
  refine le_of_eq_of_le ?_ hflat
  rw [alt_eq]
  split
  · next t hone => simp [hone]
  · rw [bag_of_not_isVar rfl, bagParams, params, List.map_map]
    rfl

/-! ## Orderly types -/

/-- Variables stand in the type only if it is to be keyed, and then the fields of its objects are
apart; alternatives stand in it only if they are admitted. The constraints of variables do not
count. -/
inductive Orderly (keyed alts : Bool) : Ty → Prop
  | var {t : Ty} : t.kind.isVar → keyed → Orderly keyed alts t
  | mk {t : Ty} : t.kind.isVar = false → (t.kind.isAlt → alts) →
    (keyed → t.kind.isObj → Param.apart (t.params.map (·.1))) →
    (∀ p ∈ t.params, Orderly keyed alts p.2) → Orderly keyed alts t

namespace Orderly

lemma isAlt_eq (h : t.Orderly keyed false) : t.kind.isAlt = false := by
  rw [eq_false_iff]
  intro halt
  cases h with
  | var hv _ => simp [Kind.isVar_eq_false_of_isAlt halt] at hv
  | mk _ hnot _ _ => simpa using hnot halt

lemma keyed_of_isVar (h : t.Orderly keyed alts) (hv : t.kind.isVar) : keyed := by
  cases h with
  | var _ hkeyed => exact hkeyed
  | mk hnot _ _ _ => simp [hv] at hnot

lemma apart (h : t.Orderly keyed alts) (hkeyed : keyed) (hobj : t.kind.isObj) :
    Param.apart (t.params.map (·.1)) := by
  cases h with
  | var hv _ =>
    simp only [Kind.isVar, beq_iff_eq] at hv
    rw [Kind.isObj, Kind.meets, hv] at hobj
    exact absurd hobj (by decide)
  | mk _ _ hapart _ => exact hapart hkeyed hobj

lemma part (h : t.Orderly keyed alts) (hv : t.kind.isVar = false) (hp : p ∈ t.params) :
    p.2.Orderly keyed alts := by
  cases h with
  | var hvar _ => simp [hvar] at hv
  | mk _ _ _ hparts => exact hparts p hp

lemma mono (h : t.Orderly keyed alts) : t.Orderly keyed true := by
  induction h with
  | var hv hkeyed => exact .var hv hkeyed
  | mk hv _ hapart _ ih => exact .mk hv (fun _ => rfl) hapart ih

lemma congr (h : t.Orderly keyed alts) (hbits : u.kind.bits = t.kind.bits)
    (hparams : u.params = t.params) : u.Orderly keyed alts := by
  cases h with
  | var hv hkeyed => exact .var (by rwa [Kind.isVar, hbits]) hkeyed
  | mk hv halt hapart hparts =>
    refine .mk (by rwa [Kind.isVar, hbits]) (by rwa [Kind.isAlt, hbits]) ?_ (hparams ▸ hparts)
    rw [Kind.isObj, Kind.meets, hbits, hparams]
    exact hapart

lemma optIf (h : t.Orderly keyed alts) (b : Bool) : (t.optIf b).Orderly keyed alts :=
  h.congr (bits_optIf t b) (params_optIf t b)

lemma deopt (h : t.Orderly keyed alts) : t.deopt.Orderly keyed alts :=
  h.congr (by simp [Ty.deopt, Kind.deopt, Kind.withOptional]) (params_deopt t)

lemma plain (hv : k.isVar = false) (halt : k.isAlt = false) : (Ty.plain k).Orderly keyed alts :=
  .mk hv (fun h => by simp [show k.isAlt from h] at halt) (fun _ _ => rfl) nofun

lemma withParams {alts' : Bool} (h : t.Orderly keyed alts') (hv : t.kind.isVar = false)
    (halt : t.kind.isAlt → alts)
    (hnames : ps.map (·.1) = t.params.map (·.1)) (hps : ∀ p ∈ ps, p.2.Orderly keyed alts) :
    (t.withParams ps).Orderly keyed alts := by
  have hlen : ps.length = t.params.length := by simpa using congrArg length hnames
  have hbits := bits_withParams t ps
  refine .mk (by simpa using hv) (by rwa [Kind.isAlt, hbits]) ?_ (by rwa [params_withParams hlen])
  rw [params_withParams hlen, hnames, Kind.isObj, Kind.meets, hbits]
  exact h.apart

lemma settled (h : t.Orderly keyed alts) : t.settled.Orderly keyed alts := by
  induction h with
  | var hv hkeyed =>
    rw [settled_of_isVar hv]
    exact .var hv hkeyed
  | @mk t hv halt hapart hparts ih =>
    rw [settled_of_not_isVar hv]
    refine (mk hv halt hapart hparts).withParams hv halt (by simp) fun q hq => ?_
    obtain ⟨p, hp, rfl⟩ := List.mem_map.1 hq
    exact ih p hp

lemma around (hv : k.isVar = false) (halt : k.isAlt = false) (hobj : k.isObj = false)
    (h : t.Orderly keyed alts) : (Ty.around k t).Orderly keyed alts := by
  refine .mk hv (fun h => ?_) (fun _ h => ?_) (by simpa [Ty.around, params] using h)
  · simp [show k.isAlt from h] at halt
  · simp [show k.isObj from h] at hobj

lemma obj (hapart : keyed → Param.apart (ps.map (·.1))) (hps : ∀ p ∈ ps, p.2.Orderly keyed alts) :
    (Ty.obj name ps).Orderly keyed alts :=
  .mk rfl (fun h => absurd (show Kind.obj.isAlt from h) (by decide)) (fun hkeyed _ =>
    hapart hkeyed) hps

lemma elem? (h : t.Orderly keyed alts) (hv : t.kind.isVar = false) (hu : t.elem? = some u) :
    u.Orderly keyed alts := by
  obtain ⟨p, hp, rfl⟩ := exists_param_of_elem? hu
  exact h.part hv hp

lemma alt (h : ∀ t ∈ ts, t.Orderly keyed true) : (Ty.alt ts).Orderly keyed true := by
  refine alt_induct h (fun t ht halt p hp => ht.part (Kind.isVar_eq_false_of_isAlt halt) hp)
    (fun _ => id) fun cands hc => ?_
  exact .mk rfl (fun _ => rfl) (fun _ hobj => absurd (show Kind.alt.isObj from hobj) (by decide))
    (by simpa [params] using hc)

lemma bag_eq_zero (h : t.Orderly false alts) : t.bag = 0 := by
  generalize hkeyed : false = keyed at h
  induction h with
  | var _ htrue => simp [← hkeyed] at htrue
  | mk hv _ _ _ ih =>
    rw [bag_of_not_isVar hv, bagParams, map_congr_left ih]
    simp

end Orderly

/-! ## Outermost alternatives -/

mutual

/-- The outermost alternatives of a type, outside of constraints. -/
def alternatives : Ty → List Ty
  | .plain k => if k.isAlt then [.plain k] else []
  | .detailed k name ps cs =>
    if k.isVar then [] else if k.isAlt then [.detailed k name ps cs] else alternativesParams ps

def alternativesParams : List (String × Ty) → List Ty
  | [] => []
  | (_, t) :: ps => t.alternatives ++ alternativesParams ps

end

lemma alternativesParams_eq (ps : List Param) :
    alternativesParams ps = ps.flatMap (·.2.alternatives) := by
  induction ps with
  | nil => rfl
  | cons p ps ih => rw [alternativesParams, ih, flatMap_cons]

lemma alternatives_of_isVar (h : t.kind.isVar) : t.alternatives = [] := by
  cases t with
  | plain k => exact if_neg fun halt => by simp [Kind.isVar_eq_false_of_isAlt halt, kind] at h
  | detailed k name ps cs => exact if_pos h

lemma alternatives_of_isAlt (h : t.kind.isAlt) : t.alternatives = [t] := by
  cases t with
  | plain k => exact if_pos h
  | detailed k name ps cs =>
    exact (if_neg (eq_false_iff.1 (Kind.isVar_eq_false_of_isAlt h))).trans (if_pos h)

lemma alternatives_of_not_isAlt (hv : t.kind.isVar = false) (halt : t.kind.isAlt = false) :
    t.alternatives = t.params.flatMap (·.2.alternatives) := by
  rw [← alternativesParams_eq]
  cases t with
  | plain k => exact if_neg (eq_false_iff.1 halt)
  | detailed k name ps cs => exact (if_neg (eq_false_iff.1 hv)).trans (if_neg (eq_false_iff.1 halt))

lemma alternatives_eq_nil_iff (hv : t.kind.isVar = false) :
    t.alternatives = [] ↔ t.kind.isAlt = false ∧ ∀ p ∈ t.params, p.2.alternatives = [] := by
  cases halt : t.kind.isAlt with
  | true => simp [alternatives_of_isAlt halt]
  | false => simp [alternatives_of_not_isAlt hv halt]

lemma alternatives_eq_nil_congr (hbits : u.kind.bits = t.kind.bits) (hparams : u.params = t.params)
    (h : t.alternatives = []) : u.alternatives = [] := by
  have hvar : u.kind.isVar = t.kind.isVar := by rw [Kind.isVar, hbits, Kind.isVar]
  cases hv : t.kind.isVar with
  | true => exact alternatives_of_isVar (hvar.trans hv)
  | false =>
    rw [alternatives_eq_nil_iff (hvar.trans hv), Kind.isAlt, hbits, hparams]
    exact (alternatives_eq_nil_iff hv).1 h

lemma outerVars_subset_of_mem_alternatives (h : u ∈ t.alternatives) :
    u.outerVars ⊆ t.outerVars := by
  induction t using induct with
  | node t ih =>
    cases hv : t.kind.isVar with
    | true => simp [alternatives_of_isVar hv] at h
    | false =>
      cases halt : t.kind.isAlt with
      | true =>
        obtain rfl : u = t := by simpa [alternatives_of_isAlt halt] using h
        exact Subset.refl _
      | false =>
        rw [alternatives_of_not_isAlt hv halt] at h
        obtain ⟨p, hp, hu⟩ := mem_flatMap.1 h
        rw [outerVars_of_not_isVar hv]
        exact fun i hi => mem_flatMap.2 ⟨p, hp, ih p hp hu hi⟩

lemma alternatives_substVars {σ : Nat → Option Ty}
    (hσ : ∀ i ∈ t.outerVars, ∀ w, σ i = some w → w.alternatives = [])
    (hnone : ∀ u ∈ t.alternatives, ∀ i ∈ u.outerVars, σ i = none) :
    (t.substVars σ).alternatives = t.alternatives.map settled := by
  induction t using induct with
  | node t ih =>
    cases hv : t.kind.isVar with
    | true =>
      rw [alternatives_of_isVar hv, substVars_of_isVar hv]
      split
      · next w hw =>
        have hplain := hσ t.kind.slot (by simp [outerVars_of_isVar hv]) w hw
        exact alternatives_eq_nil_congr (bits_optIf w _) (params_optIf w _) hplain
      · exact alternatives_of_isVar hv
    | false =>
      cases halt : t.kind.isAlt with
      | true =>
        rw [alternatives_of_isAlt halt] at hnone ⊢
        have hsettled : t.substVars σ = t.settled := substVars_congr (hnone t (by simp))
        rw [hsettled]
        refine alternatives_of_isAlt ?_
        rwa [settled_of_not_isVar hv, Kind.isAlt, bits_withParams]
      | false =>
        have hpart {p : Param} (hp : p ∈ t.params) : (p.2.substVars σ).alternatives =
          p.2.alternatives.map settled := by
          refine ih p hp (fun i hi => hσ i ?_) fun u hu => hnone u ?_
          · rw [outerVars_of_not_isVar hv]
            exact mem_flatMap.2 ⟨p, hp, hi⟩
          · rw [alternatives_of_not_isAlt hv halt]
            exact mem_flatMap.2 ⟨p, hp, hu⟩
        rw [substVars_of_not_isVar hv, alternatives_of_not_isAlt hv halt,
          alternatives_of_not_isAlt (by simpa using hv) (by rwa [Kind.isAlt, bits_withParams]),
          params_withParams_map, flatMap_map, map_flatMap]
        exact flatMap_congr fun p hp => hpart hp

lemma Orderly.alternatives_eq (h : t.Orderly keyed false) : t.alternatives = [] := by
  have hisAlt := h.isAlt_eq
  induction h with
  | var hv _ => exact alternatives_of_isVar hv
  | mk hv _ _ hparts ih =>
    exact (alternatives_eq_nil_iff hv).2 ⟨hisAlt, fun p hp => ih p hp (hparts p hp).isAlt_eq⟩

def altBag (t : Ty) : Multiset Nat := (t.alternatives.map bag).sum

lemma bag_le_altBag (h : u ∈ t.alternatives) : u.bag ≤ t.altBag :=
  single_le_sum (fun _ _ => Multiset.zero_le _) _ (List.mem_map_of_mem h)

lemma altBag_of_isAlt (h : t.kind.isAlt) : t.altBag = t.bag := by
  simp [altBag, alternatives_of_isAlt h]

lemma altBag_of_not_isAlt (hv : t.kind.isVar = false) (halt : t.kind.isAlt = false) :
    t.altBag = (t.params.map (·.2.altBag)).sum := by
  rw [altBag, alternatives_of_not_isAlt hv halt]
  induction t.params with
  | nil => rfl
  | cons p ps ih => rw [flatMap_cons, map_append, sum_append, ih, map_cons, sum_cons, altBag]

/-! ## Fields that find each other -/

def matched (u : Ty) (ps : List Param) : List Param :=
  ps.filterMap fun p => u.field? (Param.key p.1)

lemma matched_cons_none (h : u.field? (Param.key p.1) = none) :
    matched u (p :: ps) = matched u ps :=
  filterMap_cons_none (f := fun p : Param => u.field? (Param.key p.1)) h

lemma matched_cons_some (h : u.field? (Param.key p.1) = some q) :
    matched u (p :: ps) = q :: matched u ps :=
  filterMap_cons_some (f := fun p : Param => u.field? (Param.key p.1)) h

lemma matched_subset (u : Ty) (ps : List Param) : matched u ps ⊆ u.params := by
  intro q hq
  obtain ⟨p, _, hfield⟩ := mem_filterMap.1 hq
  exact mem_of_find?_eq_some hfield

lemma key_of_field? (h : u.field? name = some q) : Param.key q.1 = Param.key name := by
  simpa using find?_some h

lemma field?_congr {m n : String} (h : Param.key m = Param.key n) (u : Ty) :
    u.field? m = u.field? n := by
  unfold field?
  rw [h]

lemma field?_eq_some_iff (h : (u.params.map fun p => Param.key p.1).Nodup) :
    u.field? name = some q ↔ q ∈ u.params ∧ Param.key q.1 = Param.key name := by
  constructor
  · exact fun hq => ⟨mem_of_find?_eq_some hq, key_of_field? hq⟩
  · rintro ⟨hq, hkey⟩
    obtain ⟨r, hr⟩ : ∃ r, u.field? name = some r :=
      Option.isSome_iff_exists.1 (find?_isSome.2 ⟨q, hq, by simpa using hkey⟩)
    have hmem := mem_of_find?_eq_some hr
    rwa [inj_on_of_nodup_map h hmem hq ((key_of_field? hr).trans hkey.symm)] at hr

lemma keys_matched_sublist (h : ∀ p ∈ ps, Param.key (Param.key p.1) = Param.key p.1) :
    ((matched u ps).map fun q => Param.key q.1).Sublist (ps.map fun p => Param.key p.1) := by
  induction ps with
  | nil => exact .slnil
  | cons p ps ih =>
    have ih := ih fun q hq => h q (by simp [hq])
    cases hfield : u.field? (Param.key p.1) with
    | none =>
      rw [matched_cons_none hfield]
      exact ih.cons _
    | some q =>
      have hkey : Param.key q.1 = Param.key p.1 := (key_of_field? hfield).trans (h p (by simp))
      rw [matched_cons_some hfield, map_cons, hkey]
      exact ih.cons_cons _

lemma bag_matched_le (ht : t.Orderly keyed alts) (hobj : t.kind.isObj) (hu : u.Orderly keyed alts)
    (hv : u.kind.isVar = false) : bagParams (matched u t.params) ≤ u.bag := by
  rw [bag_of_not_isVar hv]
  cases keyed with
  | false =>
    have hzero : bagParams (matched u t.params) = 0 := by
      have hparts (q : Param) (hq : q ∈ matched u t.params) : q.2.bag = 0 :=
        (hu.part hv (matched_subset u t.params hq)).bag_eq_zero
      rw [bagParams, map_congr_left hparts]
      simp
    rw [hzero]
    exact Multiset.zero_le _
  | true =>
    obtain ⟨hkeys, hnodup⟩ := Param.apart_iff.1 (ht.apart rfl hobj)
    have hmatched : (matched u t.params).Nodup :=
      ((keys_matched_sublist hkeys).nodup hnodup).of_map _
    obtain ⟨l, hperm, hsub⟩ := subperm_of_subset hmatched (matched_subset u t.params)
    calc bagParams (matched u t.params) = bagParams l := (hperm.map _).sum_eq.symm
      _ ≤ bagParams u.params := (hsub.map _).sum_le_sum fun _ _ => Multiset.zero_le _

/-! ## Deciding -/

mutual

/-- The fields of all objects outside of constraints are apart. -/
def fieldsApart : Ty → Bool
  | .plain _ => true
  | .detailed k _ ps _ => k.isVar || (!k.isObj || Param.apart (ps.map (·.1))) &&
      fieldsApartParams ps

def fieldsApartParams : List (String × Ty) → Bool
  | [] => true
  | (_, t) :: ps => t.fieldsApart && fieldsApartParams ps

end

lemma fieldsApartParams_iff : fieldsApartParams ps ↔ ∀ p ∈ ps, p.2.fieldsApart := by
  induction ps with
  | nil => simp [fieldsApartParams]
  | cons p ps ih => simp [fieldsApartParams, ih]

lemma orderly_of_fieldsApart (h : t.fieldsApart) : t.Orderly true true := by
  induction t using induct with
  | node t ih =>
    cases hv : t.kind.isVar with
    | true => exact .var hv rfl
    | false =>
      cases t with
      | plain k => exact .mk hv (fun _ => rfl) (fun _ _ => rfl) nofun
      | detailed k n ps cs =>
        have hvar : k.isVar = false := hv
        simp only [fieldsApart, hvar, Bool.false_or, and_eq_true, or_eq_true, not_eq_true',
          fieldsApartParams_iff] at h
        refine .mk hv (fun _ => rfl) (fun _ hobj => ?_) fun p hp => ih p hp (h.2 p hp)
        exact h.1.resolve_left (eq_false_iff.not_left.2 hobj)

lemma orderly_of_outerVars (h : t.outerVars = []) : t.Orderly false true := by
  induction t using induct with
  | node t ih =>
    cases hv : t.kind.isVar with
    | true => simp [outerVars_of_isVar hv] at h
    | false =>
      rw [outerVars_of_not_isVar hv, flatMap_eq_nil_iff] at h
      exact .mk hv (fun _ => rfl) nofun fun p hp => ih p hp (h p hp)

mutual

/-- No alternative stands anywhere in the type. -/
def altFree : Ty → Bool
  | .plain k => !k.isAlt
  | .detailed k _ ps _ => !k.isAlt && altFreeParams ps

def altFreeParams : List (String × Ty) → Bool
  | [] => true
  | (_, t) :: ps => t.altFree && altFreeParams ps

end

lemma altFreeParams_iff : altFreeParams ps ↔ ∀ p ∈ ps, p.2.altFree := by
  induction ps with
  | nil => simp [altFreeParams]
  | cons p ps ih => simp [altFreeParams, ih]

lemma altFree_iff : t.altFree ↔ t.kind.isAlt = false ∧ ∀ p ∈ t.params, p.2.altFree := by
  cases t with
  | plain k => simp [altFree, kind, params]
  | detailed k n ps cs => simp [altFree, kind, params, altFreeParams_iff]

lemma altFree_of_alternatives (h : t.alternatives = []) (hvars : t.outerVars = []) : t.altFree := by
  induction t using induct with
  | node t ih =>
    cases hv : t.kind.isVar with
    | true => simp [outerVars_of_isVar hv] at hvars
    | false =>
      rw [outerVars_of_not_isVar hv, flatMap_eq_nil_iff] at hvars
      obtain ⟨halt, hparts⟩ := (alternatives_eq_nil_iff hv).1 h
      exact altFree_iff.2 ⟨halt, fun p hp => ih p hp (hparts p hp) (hvars p hp)⟩

lemma vars_eq_nil (h : t.outerVars = []) : t.vars = [] := by
  induction t using induct with
  | node t ih =>
    cases hv : t.kind.isVar with
    | true => simp [outerVars_of_isVar hv] at h
    | false =>
      rw [outerVars_of_not_isVar hv, flatMap_eq_nil_iff] at h
      rw [vars, gather_of_not_isVar hv, flatMap_eq_nil_iff]
      exact fun p hp => ih p hp (h p hp)

end Ty

end Resolvent
