import Resolvent.Proofs.Subst.Step
import Resolvent.Proofs.Ty.Shape

/-!
# Simple types

The types that a shape stands for, and simple types in general, where alternatives may stand at any
place.
-/

namespace Resolvent

/-! ## Kinds -/

namespace Kind

variable {k : Kind}

lemma not_marked (h : k.isCtx = false) :
    k.isVar = false ∧ k.isAlt = false ∧ k.isRef = false ∧ k.isSch = false ∧ k.isSelf = false := by
  unfold isCtx meets at h
  unfold isVar isAlt isRef isSch isSelf
  refine ⟨?_, ?_, ?_, ?_, ?_⟩ <;>
    · rw [beq_eq_false_iff_ne]
      intro hbits
      rw [hbits] at h
      exact absurd h (by decide)

end Kind

lemma Kind.isCtx_any : any.isCtx = false := by decide

lemma Kind.depth_any : any.depth = 0 := by decide

lemma Basic.isCtx_kind : ∀ b : Basic, b.kind.isCtx = false := by decide

lemma Basic.depth_kind : ∀ b : Basic, b.kind.depth = 0 := by decide

lemma Access.isCtx_kind : ∀ k : Access, k.kind.isCtx = false := by decide

lemma Access.isElemCont_kind : ∀ k : Access, k.kind.isElemCont := by decide

lemma Access.depth_kind : ∀ k : Access, k.kind.depth = 0 := by decide

lemma Kind.isCont_any : any.isCont = false := by decide

lemma Kind.isObj_any : any.isObj = false := by decide

lemma Basic.isCont_kind : ∀ b : Basic, b.kind.isCont = false := by decide

lemma Basic.isObj_kind : ∀ b : Basic, b.kind.isObj = false := by decide

lemma Access.isCont_kind : ∀ k : Access, k.kind.isCont := by decide

lemma Access.isObj_kind : ∀ k : Access, k.kind.isObj = false := by decide

lemma Basic.bits_ne_any : ∀ b : Basic, b.kind.bits ≠ Kind.any.bits := by decide

lemma Access.bits_ne_any : ∀ k : Access, k.kind.bits ≠ Kind.any.bits := by decide

lemma Basic.bits_ne_access : ∀ (b : Basic) (k : Access), b.kind.bits ≠ k.kind.bits := by decide

lemma Basic.bits_injective : ∀ b c : Basic, b.kind.bits = c.kind.bits → b = c := by decide

lemma Access.bits_injective : ∀ k l : Access, k.kind.bits = l.kind.bits → k = l := by decide

lemma Basic.family_beq : ∀ b c : Basic, (b.kind.family == c.kind.family) = decide (b = c) := by
  decide

lemma Basic.family_access : ∀ (b : Basic) (k : Access), (b.kind.family == k.kind.family) = false ∧
    (k.kind.family == b.kind.family) = false ∧ b.kind.family &&& k.kind.family = 0 ∧
    k.kind.family &&& b.kind.family = 0 := by
  decide

lemma Basic.isSpec_kind : ∀ b : Basic, b.kind.isSpec = false := by decide

/-! ## Types of shapes -/

lemma Access.around_optIf (k : Access) (o : Bool) (e : Ty) :
    (Ty.around k.kind e).optIf o = .detailed ((k.kind.around e.kind).withOptional o) ""
    [("", e)] [] := by
  cases k <;> cases o <;> rfl

namespace Shape

def ty (o : Bool) : Shape → Ty
  | any => .plain (Kind.any.withOptional o)
  | basic b none => .plain (b.kind.withOptional o)
  | basic b (some (name, consts)) => .detailed (b.kind.withOptional o) name [] consts
  | bare k => .plain (k.kind.withOptional o)
  | cont k p e => (Ty.around k.kind (e.ty p)).optIf o

variable {a b : Shape} {o p : Bool}

lemma ty_cont (o : Bool) (k : Access) (p : Bool) (e : Shape) : (cont k p e).ty o =
    .detailed ((k.kind.around (e.ty p).kind).withOptional o) "" [("", e.ty p)] [] :=
  k.around_optIf o _

@[simp] lemma deopt_ty (a : Shape) (o : Bool) : (a.ty o).deopt = a.ty false := by
  cases a with
  | basic b d => cases d <;> cases b <;> rfl
  | cont k p e => simp only [ty_cont]; rfl
  | bare k => cases k <;> rfl
  | any => rfl

@[simp] lemma isOpt_ty (a : Shape) (o : Bool) : (a.ty o).isOpt = o := by
  cases a with
  | basic b d => cases d <;> rfl
  | cont k p e => simp only [ty_cont]; rfl
  | bare k => rfl
  | any => rfl

@[simp] lemma optIf_ty (a : Shape) (o p : Bool) : (a.ty o).optIf p = a.ty (o || p) := by
  cases p with
  | false => simp [Ty.optIf]
  | true =>
    rw [Bool.or_true]
    cases a with
    | basic b d => cases d <;> rfl
    | cont k p e => simp only [ty_cont]; rfl
    | bare k => rfl
    | any => rfl

lemma params_ty (a : Shape) (o : Bool) : (a.ty o).params = match a with
      | cont _ p e => [("", e.ty p)]
      | _ => [] := by
  cases a with
  | basic b d => cases d <;> rfl
  | cont k p e => rw [ty_cont]; rfl
  | _ => rfl

lemma kind_ty_basic (b : Basic) (d : Option (String × List (String × Int64))) :
    ((basic b d).ty false).kind = b.kind := by
  cases d <;> cases b <;> rfl

def access? : Shape → Option Access
  | bare k | cont k _ _ => some k
  | _ => none

lemma family_ty {k : Access} (h : a.access? = some k) (o : Bool) :
    (a.ty o).kind.family = k.kind.family := by
  cases a with
  | bare l => cases h; rfl
  | cont l p e => cases h; rw [ty_cont]; rfl
  | _ => cases h

lemma isCont_ty (a : Shape) (o : Bool) : (a.ty o).kind.isCont = a.access?.isSome := by
  cases a with
  | basic b d => cases d <;> exact b.isCont_kind
  | bare k => exact k.isCont_kind
  | cont k p e => rw [ty_cont]; exact k.isCont_kind
  | any => exact Kind.isCont_any

lemma isObj_ty (a : Shape) (o : Bool) : (a.ty o).kind.isObj = false := by
  cases a with
  | basic b d => cases d <;> exact b.isObj_kind
  | bare k => exact k.isObj_kind
  | cont k p e => rw [ty_cont]; exact k.isObj_kind
  | any => exact Kind.isObj_any

lemma elem?_ty (a : Shape) (o : Bool) : (a.ty o).elem? = match a with
      | cont _ p e => some (e.ty p)
      | _ => none := by
  cases a with
  | cont k p e =>
    have hk : ((k.kind.around (e.ty p).kind).withOptional o).isElemCont := k.isElemCont_kind
    rw [ty_cont, Ty.elem?, Ty.kind, if_pos hk]
    rfl
  | _ => simp [Ty.elem?, params_ty]

lemma isCtx_ty (a : Shape) (o : Bool) : (a.ty o).kind.isCtx = false := by
  cases a with
  | basic b d => cases d <;> exact b.isCtx_kind
  | cont k p e => rw [ty_cont]; exact k.isCtx_kind
  | bare k => exact k.isCtx_kind
  | any => exact Kind.isCtx_any

@[simp] lemma isVar_ty (a : Shape) (o : Bool) : (a.ty o).kind.isVar = false :=
  (Kind.not_marked (a.isCtx_ty o)).1

@[simp] lemma isAlt_ty (a : Shape) (o : Bool) : (a.ty o).kind.isAlt = false :=
  (Kind.not_marked (a.isCtx_ty o)).2.1

lemma depth_ty (h : a.depth ≤ Kind.maxSlot) (o : Bool) : (a.ty o).kind.depth = a.depth := by
  induction a generalizing o with
  | basic b d => cases d <;> exact b.depth_kind
  | cont k p e ih =>
    simp only [depth] at h ⊢
    have hdepth : (Ty.detailed ((k.kind.around (e.ty p).kind).withOptional o) "" [("", e.ty p)]
      []).kind.depth = min ((e.ty p).kind.depth + 1) Kind.maxSlot :=
      if_pos k.isElemCont_kind
    rw [ty_cont, hdepth, ih (by omega) p]
    omega
  | bare k => exact k.depth_kind
  | any => exact Kind.depth_any

def bits : Shape → UInt32
  | any => Kind.any.bits
  | basic b _ => b.kind.bits
  | bare k | cont k _ _ => k.kind.bits

lemma bits_ty (a : Shape) (o : Bool) : (a.ty o).kind.bits = a.bits := by
  cases a with
  | basic b d => cases d <;> rfl
  | cont k p e => rw [ty_cont]; rfl
  | _ => rfl

lemma heads_eq (h : a.ty o = b.ty p) : o = p ∧ a.bits = b.bits :=
  ⟨by rw [← isOpt_ty a o, h, isOpt_ty], by rw [← bits_ty a o, h, bits_ty]⟩

lemma isAny_ty_any (o : Bool) : (any.ty o).isAny := by cases o <;> decide

lemma isAny_ty_of_ne (h : a ≠ any) (o : Bool) : (a.ty o).isAny = false := by
  rw [Ty.isAny, Kind.isAny, bits_ty, beq_eq_false_iff_ne]
  cases a with
  | any => exact absurd rfl h
  | basic b d => exact Basic.bits_ne_any b
  | bare k => exact Access.bits_ne_any k
  | cont k p e => exact Access.bits_ne_any k

lemma ty_injective (h : a.ty o = b.ty p) : o = p ∧ a = b := by
  obtain ⟨rfl, hbits⟩ := heads_eq h
  refine ⟨rfl, ?_⟩
  induction a generalizing b o with
  | any =>
    cases b with
    | any => rfl
    | basic c e => exact absurd hbits.symm (Basic.bits_ne_any c)
    | bare l => exact absurd hbits.symm (Access.bits_ne_any l)
    | cont l q f => exact absurd hbits.symm (Access.bits_ne_any l)
  | basic c d =>
    cases b with
    | any => exact absurd hbits (Basic.bits_ne_any c)
    | basic c' e =>
      obtain rfl := Basic.bits_injective c c' hbits
      cases d <;> cases e <;> simp_all [ty, Prod.ext_iff]
    | bare l => exact absurd hbits (Basic.bits_ne_access c l)
    | cont l q f => exact absurd hbits (Basic.bits_ne_access c l)
  | bare k =>
    cases b with
    | any => exact absurd hbits (Access.bits_ne_any k)
    | basic c e => exact absurd hbits.symm (Basic.bits_ne_access c k)
    | bare l => rw [Access.bits_injective k l hbits]
    | cont l q f =>
      rw [ty_cont] at h
      cases h
  | cont k q e ih =>
    rw [ty_cont] at h
    cases b with
    | any => exact absurd hbits (Access.bits_ne_any k)
    | basic c e => exact absurd hbits.symm (Basic.bits_ne_access c k)
    | bare l => cases h
    | cont l r f =>
      obtain rfl := Access.bits_injective k l hbits
      rw [ty_cont] at h
      have helem : e.ty q = f.ty r := by simpa using (Ty.detailed.inj h).2.2.1
      obtain ⟨rfl, helems⟩ := heads_eq helem
      rw [ih helems helem]

end Shape

/-! ## Simple types -/

namespace Ty

variable {t u : Ty} {alts : Bool} {n : Nat}

/-- Types without objects, specs, variables, references and self references, of which at most `n`
containers stand one inside the other. Alternatives occur only if `alts` says so. -/
inductive Simple (alts : Bool) : Nat → Ty → Prop
  | any {n : Nat} (o : Bool) : Simple alts n (plain (Kind.any.withOptional o))
  | basic {n : Nat} (o : Bool) (b : Basic) : Simple alts n (plain (b.kind.withOptional o))
  | named {n : Nat} (o : Bool) (b : Basic) (name : String) (consts : List (String × Int64)) :
    Simple alts n (detailed (b.kind.withOptional o) name [] consts)
  | bare {n : Nat} (o : Bool) (k : Access) : Simple alts n (plain (k.kind.withOptional o))
  | cont {n : Nat} (o : Bool) (k : Access) {e : Ty} : Simple alts n e →
      Simple alts (n + 1) ((around k.kind e).optIf o)
  | alt {n : Nat} (o : Bool) {ts : List Ty} : alts → (∀ t ∈ ts, Simple alts n t) →
    Simple alts n (detailed (Kind.alt.withOptional o) "" (ts.map fun t => ("", t)) [])

lemma simple_iff_exists_shape : Simple false n t ↔ ∃ o a, t = Shape.ty o a ∧ a.depth ≤ n := by
  constructor
  · intro h
    induction h with
    | any o => exact ⟨o, .any, rfl, by simp [Shape.depth]⟩
    | basic o b => exact ⟨o, .basic b none, rfl, by simp [Shape.depth]⟩
    | named o b name consts => exact ⟨o, .basic b (some (name, consts)), rfl, by simp [Shape.depth]⟩
    | bare o k => exact ⟨o, .bare k, rfl, by simp [Shape.depth]⟩
    | cont o k _ ih =>
      obtain ⟨p, e, rfl, hdepth⟩ := ih
      exact ⟨o, .cont k p e, rfl, by simpa [Shape.depth] using hdepth⟩
    | alt o halts => cases halts
  · rintro ⟨o, a, rfl, hdepth⟩
    induction a generalizing o n with
    | any => exact .any o
    | basic b d =>
      cases d with
      | none => exact .basic o b
      | some d => exact .named o b d.1 d.2
    | bare k => exact .bare o k
    | cont k p e ih =>
      cases n with
      | zero => simp [Shape.depth] at hdepth
      | succ n => exact .cont o k (ih p (by simpa [Shape.depth] using hdepth))

/-- No part is a variable or a self reference, and containers have the depth that their elements
call for. -/
inductive Ground : Ty → Prop
  | mk {t : Ty} : t.kind.isVar = false → t.kind.isSelf = false → t.withParams t.params = t →
      (∀ p ∈ t.params, Ground p.2) → Ground t

namespace Ground

lemma gather_eq (h : t.Ground) (visit : Nat → List Nat × Bool) : t.gather visit = [] := by
  induction h with
  | @mk t hv _ _ _ ih => rw [gather_of_not_isVar hv, List.flatMap_eq_nil_iff]; exact ih

lemma isVar_eq (h : t.Ground) : t.kind.isVar = false := by cases h; assumption

lemma settled_eq (h : t.Ground) : t.settled = t := by
  induction h with
  | @mk t hv _ hsame _ ih =>
    have hparams : t.params.map (fun p => (p.1, p.2.settled)) = t.params := by
      refine (List.map_congr_left fun p hp => ?_).trans (List.map_id _)
      rw [ih p hp]
      rfl
    rw [settled_of_not_isVar hv, hparams, hsame]

lemma selfFree (h : t.Ground) : t.selfFree := by
  induction h with
  | mk _ hself _ _ ih => exact selfFree_iff.2 ⟨hself, ih⟩

lemma equal_iff (ht : t.Ground) (hu : u.Ground) : equal t u ↔ t = u :=
  ⟨eq_of_equal ht.selfFree hu.selfFree, fun h => h ▸ equal_self t⟩

end Ground

lemma withParams_params (h : t.kind.isElemCont = false) : t.withParams t.params = t := by
  cases t with
  | plain k => rfl
  | detailed k name ps cs =>
    simp only [kind] at h
    cases ps <;> simp [withParams, params, h]

lemma Ground.of_not_isCtx (hk : t.kind.isCtx = false) (hsame : t.withParams t.params = t)
    (hparams : ∀ p ∈ t.params, p.2.Ground) : t.Ground :=
  .mk (Kind.not_marked hk).1 (Kind.not_marked hk).2.2.2.2 hsame hparams

lemma Ground.alternative {ts : List Ty} (o : Bool) (h : ∀ t ∈ ts, t.Ground) :
    (detailed (Kind.alt.withOptional o) "" (ts.map fun t => ("", t)) []).Ground := by
  have hkind : Kind.alt.isVar = false ∧ Kind.alt.isSelf = false ∧ Kind.alt.isElemCont = false := by
    decide
  exact .mk hkind.1 hkind.2.1 (withParams_params hkind.2.2) (by simpa [params] using h)

lemma Simple.ground (h : Simple alts n t) : t.Ground := by
  induction h with
  | any o => exact .of_not_isCtx Kind.isCtx_any rfl nofun
  | basic o b => exact .of_not_isCtx b.isCtx_kind rfl nofun
  | named o b name consts => exact .of_not_isCtx b.isCtx_kind rfl nofun
  | bare o k => exact .of_not_isCtx k.isCtx_kind rfl nofun
  | @cont n o k e _ ih =>
    rw [k.around_optIf]
    refine .of_not_isCtx k.isCtx_kind ?_ (by simpa [params] using ih)
    have helem : ((k.kind.around e.kind).withOptional o).isElemCont := k.isElemCont_kind
    simp only [params, withParams, helem]
    rfl
  | alt o _ _ ih => exact .alternative o ih

end Ty

lemma Shape.simple_ty {a : Shape} {n : Nat} (h : a.depth ≤ n) (o : Bool) :
    (a.ty o).Simple false n :=
  Ty.simple_iff_exists_shape.2 ⟨o, a, rfl, h⟩

lemma Shape.ground_ty (a : Shape) (o : Bool) : (a.ty o).Ground :=
  (simple_ty (le_refl a.depth) o).ground

lemma Shape.equal_ty_of_ne {a b : Shape} (h : a ≠ b) (o p : Bool) :
    Ty.equal (a.ty o) (b.ty p) = false := by
  rw [Bool.eq_false_iff, Ne, (a.ground_ty o).equal_iff (b.ground_ty p)]
  exact fun heq => h (ty_injective heq).2

namespace Shape

def typed (x : Bool × Shape) : Ty := x.2.ty x.1

lemma typed_injective : Function.Injective typed := by
  intro x y h
  obtain ⟨hflag, hshape⟩ := ty_injective h
  exact Prod.ext hflag hshape

lemma ground_typed (x : Bool × Shape) : (typed x).Ground := x.2.ground_ty x.1

@[simp] lemma isAlt_typed (x : Bool × Shape) : (typed x).kind.isAlt = false := x.2.isAlt_ty x.1

@[simp] lemma isVar_typed (x : Bool × Shape) : (typed x).kind.isVar = false := x.2.isVar_ty x.1

lemma exists_typed {n : Nat} {ts : List Ty} (hts : ∀ t ∈ ts, t.Simple false n) :
    ∃ l : List (Bool × Shape), ts = l.map typed ∧ ∀ y ∈ l, y.2.depth ≤ n := by
  induction ts with
  | nil => exact ⟨[], rfl, nofun⟩
  | cons t ts ih =>
    obtain ⟨o, a, rfl, hdepth⟩ := Ty.simple_iff_exists_shape.1 (hts t (by simp))
    obtain ⟨l, rfl, hl⟩ := ih fun u hu => hts u (by simp [hu])
    exact ⟨(o, a) :: l, rfl, List.forall_mem_cons.2 ⟨hdepth, hl⟩⟩

end Shape

end Resolvent
