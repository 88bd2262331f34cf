import Resolvent.Proofs.Ty.Variables
import Resolvent.Ty.Equality
import Resolvent.Ty.Fit
import Mathlib.Logic.Function.Basic

/-!
# Renaming type variables

Numbers of type variables are names: nothing that is done with types depends on which numbers they
are, as long as different variables keep different numbers.
-/

namespace Resolvent

open List

variable {f : Nat → Nat}

namespace Kind

/-- The kind with the number of a variable renamed. -/
def rename (f : Nat → Nat) (k : Kind) : Kind := if k.isVar then k.withSlot (f k.slot) else k

variable {j k : Kind}

@[simp] lemma bits_rename : (k.rename f).bits = k.bits := by
  unfold rename
  split <;> rfl

@[simp] lemma optional_rename : (k.rename f).optional = k.optional := by
  unfold rename
  split <;> rfl

@[simp] lemma isVar_rename : (k.rename f).isVar = k.isVar := by simp [isVar]
@[simp] lemma isAlt_rename : (k.rename f).isAlt = k.isAlt := by simp [isAlt]
@[simp] lemma isRef_rename : (k.rename f).isRef = k.isRef := by simp [isRef]
@[simp] lemma isSch_rename : (k.rename f).isSch = k.isSch := by simp [isSch]
@[simp] lemma isSelf_rename : (k.rename f).isSelf = k.isSelf := by simp [isSelf]
@[simp] lemma isVoid_rename : (k.rename f).isVoid = k.isVoid := by simp [isVoid]
@[simp] lemma isAny_rename : (k.rename f).isAny = k.isAny := by simp [isAny]
@[simp] lemma meets_rename {mask : UInt32} : (k.rename f).meets mask = k.meets mask := by
  simp [meets]
@[simp] lemma isCtx_rename : (k.rename f).isCtx = k.isCtx := meets_rename
@[simp] lemma isNum_rename : (k.rename f).isNum = k.isNum := meets_rename
@[simp] lemma isChar_rename : (k.rename f).isChar = k.isChar := meets_rename
@[simp] lemma isIdxr_rename : (k.rename f).isIdxr = k.isIdxr := meets_rename
@[simp] lemma isKeyr_rename : (k.rename f).isKeyr = k.isKeyr := meets_rename
@[simp] lemma isCont_rename : (k.rename f).isCont = k.isCont := meets_rename
@[simp] lemma isObj_rename : (k.rename f).isObj = k.isObj := meets_rename
@[simp] lemma isSpec_rename : (k.rename f).isSpec = k.isSpec := meets_rename
@[simp] lemma isElemCont_rename : (k.rename f).isElemCont = k.isElemCont := by simp [isElemCont]
@[simp] lemma family_rename : (k.rename f).family = k.family := by simp [family]
@[simp] lemma bare_rename : (k.rename f).bare = k.bare := by simp [bare]

lemma rename_of_isVar (h : k.isVar) : k.rename f = k.withSlot (f k.slot) := if_pos h

lemma rename_of_not_isVar (h : k.isVar = false) : k.rename f = k := if_neg (by simp [h])

lemma isVar_eq_false_of_isElemCont (h : k.isElemCont) : k.isVar = false := by
  by_contra hv
  have hbits : k.bits = var.bits := by simpa [isVar] using hv
  rw [isElemCont, isCont, isObj, meets, meets, hbits] at h
  exact absurd h (by decide)

lemma isVar_eq_false_of_isSelf (h : k.isSelf) : k.isVar = false := by
  have hbits : k.bits = self.bits := by simpa [isSelf] using h
  rw [isVar, hbits]
  decide

@[simp] lemma depth_rename : (k.rename f).depth = k.depth := by
  unfold depth
  cases h : k.isElemCont with
  | false => simp [h]
  | true => simp [h, rename_of_not_isVar (isVar_eq_false_of_isElemCont h)]

lemma withOptional_rename (b : Bool) :
    (k.withOptional b).rename f = (k.rename f).withOptional b := by
  cases h : k.isVar with
  | false => rw [rename_of_not_isVar h, rename_of_not_isVar (by simpa using h)]
  | true =>
    rw [rename_of_isVar h, rename_of_isVar (by simpa using h)]
    rfl

lemma around_rename (h : k.isVar = false) : (k.around j).rename f = k.around (j.rename f) := by
  rw [rename_of_not_isVar (by simpa using h), around, around, depth_rename]

lemma rename_inj (hf : Function.Injective f) : j.rename f = k.rename f ↔ j = k := by
  refine ⟨fun h => ?_, fun h => h ▸ rfl⟩
  have hbits : j.bits = k.bits := by simpa using congrArg bits h
  have hoptional : j.optional = k.optional := by simpa using congrArg optional h
  have hvar : j.isVar = k.isVar := by simp [isVar, hbits]
  have hslot := congrArg slot h
  cases hk : k.isVar with
  | false => rwa [rename_of_not_isVar hk, rename_of_not_isVar (hvar.trans hk)] at h
  | true =>
    rw [rename_of_isVar hk, rename_of_isVar (hvar.trans hk)] at hslot
    cases j
    simp_all [withSlot, hf.eq_iff]

end Kind

namespace Ty

variable {t u a b : Ty}

mutual

/-- The type with all variables renamed, those in constraints included. -/
def rename (f : Nat → Nat) : Ty → Ty
  | plain k => plain (k.rename f)
  | detailed k name ps cs => detailed (k.rename f) name (renameParams f ps) cs

def renameParams (f : Nat → Nat) : List (String × Ty) → List (String × Ty)
  | [] => []
  | (n, t) :: ps => (n, t.rename f) :: renameParams f ps

end

lemma renameParams_eq_map (ps : List Param) :
    renameParams f ps = ps.map fun p => (p.1, p.2.rename f) := by
  induction ps with
  | nil => rfl
  | cons p ps ih => simp [renameParams, ih]

@[simp] lemma kind_rename : (t.rename f).kind = t.kind.rename f := by cases t <;> rfl

@[simp] lemma params_rename : (t.rename f).params = t.params.map fun p => (p.1, p.2.rename f) := by
  cases t <;> simp [rename, params, renameParams_eq_map]

@[simp] lemma name_rename : (t.rename f).name = t.name := by cases t <;> rfl

@[simp] lemma isDetailed_rename : (t.rename f).isDetailed = t.isDetailed := by cases t <;> rfl

@[simp] lemma isOpt_rename : (t.rename f).isOpt = t.isOpt := by simp [isOpt]

@[simp] lemma isAny_rename : (t.rename f).isAny = t.isAny := by simp [isAny]

@[simp] lemma isVoid_rename : (t.rename f).isVoid = t.isVoid := by simp [isVoid]

lemma setKind_rename (k : Kind) : (t.setKind k).rename f = (t.rename f).setKind (k.rename f) := by
  cases t <;> rfl

@[simp] lemma opt_rename : (t.rename f).opt = t.opt.rename f := by
  simp [opt, setKind_rename, Kind.opt, Kind.withOptional_rename]

@[simp] lemma deopt_rename : (t.rename f).deopt = t.deopt.rename f := by
  simp [deopt, setKind_rename, Kind.deopt, Kind.withOptional_rename]

@[simp] lemma optIf_rename (b : Bool) : (t.rename f).optIf b = (t.optIf b).rename f := by
  cases b <;> simp [optIf]

@[simp] lemma elem?_rename : (t.rename f).elem? = t.elem?.map (rename f) := by
  unfold elem?
  cases h : t.kind.isElemCont with
  | false => simp [h]
  | true => cases hp : t.params <;> simp [h, hp]

@[simp] lemma varId?_rename : (t.rename f).varId? = t.varId?.map f := by
  unfold varId?
  cases h : t.kind.isVar with
  | false => simp [h]
  | true =>
    rw [kind_rename, Kind.isVar_rename, h, Kind.rename_of_isVar h]
    rfl

@[simp] lemma members_rename : (t.rename f).members = t.members.map (rename f) := by
  unfold members
  cases h : t.kind.isVar || t.kind.isAlt <;> simp [h]

@[simp] lemma field?_rename (n : String) :
    (t.rename f).field? n = (t.field? n).map fun p => (p.1, p.2.rename f) := by
  rw [field?, params_rename, find?_map]
  rfl

@[simp] lemma result_rename : (t.rename f).result = t.result.rename f := by
  cases h : t.params.getLast? <;> simp [result, h, void, rename,
    Kind.rename_of_not_isVar (k := .void) rfl]

@[simp] lemma args_rename : (t.rename f).args = t.args.map fun p => (p.1, p.2.rename f) := by
  simp [args]

lemma withParams_rename (ps : List Param) :
    (t.withParams ps).rename f = (t.rename f).withParams (ps.map fun p => (p.1, p.2.rename f)) := by
  cases t with
  | plain k => simp [withParams, rename]
  | detailed k name qs cs =>
    cases qs with
    | nil => simp [withParams, rename, renameParams]
    | cons q qs =>
      cases ps with
      | nil => simp [withParams]
      | cons p ps =>
        cases h : k.isElemCont with
        | false => simp [withParams, rename, renameParams_eq_map, h]
        | true =>
          have hv := Kind.isVar_eq_false_of_isElemCont h
          simp [withParams, rename, renameParams_eq_map, h, Kind.rename_of_not_isVar hv,
            Kind.around_rename hv]

lemma var_rename (i : Nat) (cs : List Ty) :
    (var i cs).rename f = var (f i) (cs.map (rename f)) := by
  have hk : (Kind.var.withSlot i).rename f = Kind.var.withSlot (f i) := Kind.rename_of_isVar rfl
  cases cs <;> simp [var, rename, renameParams_eq_map, hk]

lemma around_rename {k : Kind} (h : k.isVar = false) :
    (around k t).rename f = around k (t.rename f) := by
  simp [around, rename, renameParams, Kind.around_rename h]

@[simp] lemma size_rename (t : Ty) : (t.rename f).size = t.size := by
  induction t using induct with
  | node t ih =>
    cases t with
    | plain k => rfl
    | detailed k name ps cs =>
      simp only [params] at ih
      simp only [rename, size, renameParams_eq_map, sizeParams_eq_foldr]
      congr 1
      induction ps with
      | nil => rfl
      | cons p ps ihps => simp [ih p (by simp), ihps fun q hq => ih q (by simp [hq])]

/-! ## Ground types -/

/-- The type has no variables. -/
def isGround (t : Ty) : Bool := t.outerVars.isEmpty

lemma isGround_iff : t.isGround ↔ t.kind.isVar = false ∧ ∀ p ∈ t.params, p.2.isGround := by
  cases h : t.kind.isVar with
  | true => simp [isGround, outerVars_of_isVar h]
  | false => simp [isGround, outerVars_of_not_isVar h]

lemma rename_of_isGround (h : t.isGround) : t.rename f = t := by
  induction t using induct with
  | node t ih =>
    obtain ⟨hv, hparams⟩ := isGround_iff.1 h
    cases t with
    | plain k => exact congrArg plain (Kind.rename_of_not_isVar hv)
    | detailed k name ps cs =>
      have hps : ∀ p ∈ ps, (p.1, p.2.rename f) = p := fun p hp => by rw [ih p hp (hparams p hp)]
      rw [rename, renameParams_eq_map, map_congr_left hps, List.map_id']
      exact congrArg (detailed · name ps cs) (Kind.rename_of_not_isVar hv)

lemma rename_id (t : Ty) : t.rename id = t := by
  have hkind (k : Kind) : k.rename id = k := by
    unfold Kind.rename
    split <;> rfl
  induction t using induct with
  | node t ih =>
    cases t with
    | plain k => exact congrArg plain (hkind k)
    | detailed k name ps cs =>
      have hps : ∀ p ∈ ps, (p.1, p.2.rename id) = p := fun p hp => by rw [ih p hp]
      rw [rename, renameParams_eq_map, map_congr_left hps, List.map_id', hkind]

/-! ## Replacing and gathering variables -/

lemma substVars_rename {σ τ : Nat → Option Ty}
    (h : ∀ i ∈ t.outerVars, τ (f i) = (σ i).map (rename f)) :
    (t.rename f).substVars τ = (t.substVars σ).rename f := by
  induction t using induct with
  | node t ih =>
    cases hv : t.kind.isVar with
    | true =>
      rw [substVars_of_isVar hv, substVars_of_isVar (by simpa using hv)]
      simp only [kind_rename, Kind.rename_of_isVar hv, Kind.withSlot]
      rw [h t.kind.slot (by simp [outerVars_of_isVar hv])]
      cases σ t.kind.slot <;> simp
    | false =>
      rw [substVars_of_not_isVar hv, substVars_of_not_isVar (by simpa using hv), withParams_rename]
      rw [outerVars_of_not_isVar hv] at h
      simp only [params_rename, List.map_map, Function.comp_def]
      congr 1
      exact map_congr_left fun p hp => by rw [ih p hp fun i hi => h i (mem_flatMap.2 ⟨p, hp, hi⟩)]

lemma gather_rename {v w : Nat → List Nat × Bool}
    (h : ∀ i ∈ t.gather (fun j => ([j], (v j).2)), w (f i) = ((v i).1.map f, (v i).2)) :
    (t.rename f).gather w = (t.gather v).map f := by
  induction t using induct with
  | node t ih =>
    have hparams (h : ∀ i ∈ t.params.flatMap fun p => p.2.gather fun j => ([j], (v j).2),
      w (f i) = ((v i).1.map f, (v i).2)) : ((t.rename f).params.flatMap fun p => p.2.gather w) =
        (t.params.flatMap fun p => p.2.gather v).map f := by
      simp only [params_rename, flatMap_map, map_flatMap]
      exact flatMap_congr fun p hp => ih p hp fun i hi => h i (mem_flatMap.2 ⟨p, hp, hi⟩)
    cases hv : t.kind.isVar with
    | true =>
      rw [gather_of_isVar hv] at h
      rw [gather_of_isVar hv, gather_of_isVar (by simpa using hv)]
      simp only [kind_rename, Kind.rename_of_isVar hv, Kind.withSlot]
      rw [h t.kind.slot (by simp)]
      cases hb : (v t.kind.slot).2 with
      | false => simp
      | true => rw [if_pos rfl, if_pos rfl, hparams fun i hi => h i (by simp [hb, hi]), map_append]
    | false =>
      rw [gather_of_not_isVar hv] at h
      rw [gather_of_not_isVar hv, gather_of_not_isVar (by simpa using hv), hparams h]

lemma vars_rename (t : Ty) : (t.rename f).vars = t.vars.map f := gather_rename (by simp)

/-! ## Comparing types -/

section

variable (hf : Function.Injective f)
include hf

def Site.rename (f : Nat → Nat) (s : Site) : Site :=
  ⟨s.node.rename f, s.above.map (Ty.rename f), s.path⟩

omit hf in
lemma Site.enclosing?_rename (s : Site) (dist : Nat) :
    (s.rename f).enclosing? dist = (s.enclosing? dist).map (rename f) := by
  unfold enclosing?
  split
  · rfl
  · simp only [rename, ← map_drop]
    cases s.above.drop (dist - 1) <;> rfl

omit hf in
lemma equalParams_rename {eq eq' : Nat → Ty → Ty → Option Bool}
    (h : ∀ i t u, eq' i (t.rename f) (u.rename f) = eq i t u) (i : Nat) (ps qs : List Param) :
    equalParams eq' i (renameParams f ps) (renameParams f qs) = equalParams eq i ps qs := by
  induction ps generalizing i qs with
  | nil => cases qs <;> rfl
  | cons p ps ih =>
    cases qs with
    | nil => rfl
    | cons q qs => simp only [renameParams, equalParams, h, ih]

lemma equalAt_rename (fuel : Nat) : ∀ (a : Site) (ka : Kind) (b : Site) (kb : Kind)
    (seen : List (List Nat × List Nat)),
    equalAt fuel (a.rename f) (ka.rename f) (b.rename f) (kb.rename f) seen =
    equalAt fuel a ka b kb seen := by
  induction fuel with
  | zero => exact fun _ _ _ _ _ => rfl
  | succ fuel ih =>
    intro a ka b kb seen
    have hself {k : Kind} (h : k.isSelf) : k.rename f = k :=
      Kind.rename_of_not_isVar (Kind.isVar_eq_false_of_isSelf h)
    unfold equalAt
    simp only [Kind.isSelf_rename, Kind.rename_inj hf, Site.enclosing?_rename]
    split
    · next ha _ =>
      rw [hself ha]
      cases a.enclosing? ka.slot with
      | none => rfl
      | some a' =>
        have := ih a' (a'.node.kind.withOptional ka.optional) b kb seen
        simpa [Site.rename, Kind.withOptional_rename] using this
    · next _ hb =>
      rw [hself hb]
      cases b.enclosing? kb.slot with
      | none => rfl
      | some b' =>
        have := ih a ka b' (b'.node.kind.withOptional kb.optional) seen
        simpa [Site.rename, Kind.withOptional_rename] using this
    · refine if_congr Iff.rfl ?_ rfl
      cases ha : a.node with
      | plain ka =>
        cases hb : b.node <;> simp [Site.rename, ha, hb, rename]
      | detailed ka name ps cs =>
        cases hb : b.node with
        | plain kb => simp [Site.rename, ha, hb, rename]
        | detailed kb other qs ds =>
          have hchild (seen : List (List Nat × List Nat)) (i : Nat) (t u : Ty) :
              equalAt fuel ((a.rename f).child i (t.rename f)) (t.rename f).kind
              ((b.rename f).child i (u.rename f)) (u.rename f).kind seen =
                equalAt fuel (a.child i t) t.kind (b.child i u) u.kind seen := by
            simpa [Site.rename, Site.child] using ih (a.child i t) t.kind (b.child i u) u.kind seen
          have hnode {s : Site} {k : Kind} {name : String} {ps : List Param}
            {cs : List (String × Int64)} (h : s.node = detailed k name ps cs) :
              (s.rename f).node = detailed (k.rename f) name (renameParams f ps) cs := by
            simp [Site.rename, h, rename]
          have hlength (ps : List Param) : (renameParams f ps).length = ps.length := by
            simp [renameParams_eq_map]
          rw [hnode ha, hnode hb]
          simp only [hlength]
          exact if_congr Iff.rfl rfl
            (if_congr Iff.rfl (equalParams_rename (fun i t u => hchild _ i t u) 0 ps qs) rfl)

@[simp] lemma equal_rename (a b : Ty) : equal (a.rename f) (b.rename f) = equal a b := by
  have := equalAt_rename hf (equalBudget a b) ⟨a, [], []⟩ a.kind ⟨b, [], []⟩ b.kind []
  rw [equal, equal?, kind_rename, kind_rename, equalBudget, size_rename, size_rename]
  exact congrArg (·.getD false) this

lemma addCandidate_rename (cands : List Ty) (t : Ty) :
    addCandidate (cands.map (rename f)) (t.rename f) = (addCandidate cands t).map (rename f) := by
  have hany : (cands.map (rename f)).any (equal · (t.rename f)) = cands.any (equal · t) := by
    simp [Function.comp_def, equal_rename hf]
  rw [addCandidate, addCandidate, hany]
  split <;> simp

lemma foldl_addCandidate_rename (cands ts : List Ty) :
    (ts.map (rename f)).foldl addCandidate (cands.map (rename f)) =
    (ts.foldl addCandidate cands).map (rename f) := by
  induction ts generalizing cands with
  | nil => rfl
  | cons t ts ih => simp only [map_cons, foldl_cons, addCandidate_rename hf, ih]

omit hf in
lemma candidates_rename (t : Ty) : (t.rename f).candidates = t.candidates.map (rename f) := by
  unfold candidates
  cases h : t.kind.isAlt <;> simp [h]

lemma alt_rename (ts : List Ty) : alt (ts.map (rename f)) = (alt ts).rename f := by
  have hcands : (ts.map (rename f)).flatMap candidates =
    (ts.flatMap candidates).map (rename f) := by
    simp [flatMap_map, map_flatMap, candidates_rename]
  have hfold := foldl_addCandidate_rename hf [] (ts.flatMap candidates)
  rw [map_nil] at hfold
  have halt : Kind.alt.rename f = .alt := Kind.rename_of_not_isVar rfl
  rw [alt, alt, hcands, hfold]
  rcases (ts.flatMap candidates).foldl addCandidate [] with _ | ⟨t, _ | ⟨u, us⟩⟩
  · simp [rename, renameParams, halt]
  · rfl
  · simp [rename, renameParams_eq_map, halt]

/-! ## Fitting types -/

section

variable {fit fit' : Ty → Ty → Fit} (hfit : ∀ a b, fit' (a.rename f) (b.rename f) = fit a b)
include hfit

omit hf in
lemma fitFields_rename (src : Ty) (ps : List Param) (acc : Fit) (found : Nat) :
    fitFields fit' (src.rename f) (ps.map fun p => (p.1, p.2.rename f)) acc found =
    fitFields fit src ps acc found := by
  induction ps generalizing acc found with
  | nil => rfl
  | cons p ps ih =>
    simp only [map_cons, fitFields, field?_rename]
    cases src.field? (Param.key p.1) <;> simp [hfit, ih]

omit hf in
lemma fitObjects_rename (src dst : Ty) :
    fitObjects fit' (src.rename f) (dst.rename f) = fitObjects fit src dst := by
  simp [fitObjects, fitFields_rename hfit]

omit hf in
lemma fitContainers_rename (src dst : Ty) : fitContainers fit' (src.rename f) (dst.rename f) =
    fitContainers fit src dst := by
  have hkinds : fitContKinds (src.kind.rename f) (dst.kind.rename f) =
    fitContKinds src.kind dst.kind := by simp [fitContKinds]
  simp only [fitContainers, kind_rename, hkinds, Kind.isObj_rename, fitObjects_rename hfit,
    elem?_rename, params_rename, foldl_map]
  cases fitContKinds src.kind dst.kind with
  | none => rfl
  | some kinds =>
    refine if_congr Iff.rfl rfl (if_congr Iff.rfl rfl (if_congr Iff.rfl ?_ ?_))
    · cases dst.elem? <;> simp [hfit]
    · cases src.elem? <;> cases dst.elem? <;> simp [hfit]

lemma fitPlain_rename (src dst : Ty) :
    fitPlain fit' (src.rename f) (dst.rename f) = fitPlain fit src dst := by
  simp [fitPlain, equal_rename hf, fitContainers_rename hfit, fitKinds]

lemma fitWith_rename (src dst : Ty) :
    fitWith fit' (src.rename f) (dst.rename f) = fitWith fit src dst := by
  simp [fitWith, fitPlain_rename hf hfit]

end

lemma fit_rename (a b : Ty) : fit (a.rename f) (b.rename f) = fit a b := by
  have hn (n : Nat) : ∀ a b, fitN n (a.rename f) (b.rename f) = fitN n a b := by
    induction n with
    | zero => exact fun _ _ => rfl
    | succ n ih => exact fitWith_rename hf ih
  rw [fit, fit, size_rename, hn]

end

end Ty

end Resolvent
