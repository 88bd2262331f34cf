import Resolvent.Proofs.Element.Reader
import Resolvent.Proofs.Subst.Termination
import Resolvent.Proofs.Ty.Renaming
import Resolvent.Proofs.Val.Whole

/-!
# Values and scopes without type variables

A value is ground if it has no functions and no type in it has variables.
-/

namespace Resolvent

variable {d : Definition} {n : String} {scope : Scope}

namespace Ty

variable {t : Ty} {k : Kind}

lemma isGround_iff_over : t.isGround ↔ t.Over ∅ := by
  simp [isGround, Over, List.eq_nil_iff_forall_not_mem]

lemma isGround_plain (h : k.isVar = false) : (plain k).isGround :=
  isGround_iff.2 ⟨h, by simp [params]⟩

lemma isGround_around (h : k.isVar = false) (ht : t.isGround) : (around k t).isGround :=
  isGround_iff.2 ⟨h, by simpa [around, params] using ht⟩

@[simp] lemma isGround_optIf (b : Bool) : (t.optIf b).isGround = t.isGround := by simp [isGround]

end Ty

namespace Val

variable {v w : Val} {vs ws : List Val} {t : Ty} {ts : List Ty} {entries : List (String × Val)}
  {P : Ty → Prop}

mutual

/-- There are no functions and no type variables in the value. -/
def isGround : Val → Bool
  | typ t => t.isGround
  | fn _ => false
  | list items => areGround items
  | dict entries => entriesGround entries
  | null | bool _ | int _ | real _ | str _ => true

def areGround : List Val → Bool
  | [] => true
  | v :: vs => v.isGround && areGround vs

def entriesGround : List (String × Val) → Bool
  | [] => true
  | (_, v) :: entries => v.isGround && entriesGround entries

end

@[simp] lemma areGround_iff : areGround vs ↔ ∀ v ∈ vs, v.isGround := by
  induction vs with
  | nil => simp [areGround]
  | cons v vs ih => simp [areGround, ih]

@[simp] lemma entriesGround_iff : entriesGround entries ↔ ∀ p ∈ entries, p.2.isGround := by
  induction entries with
  | nil => simp [entriesGround]
  | cons p entries ih => simp [entriesGround, ih]

lemma ground_commonType (hts : ∀ t ∈ ts, t.isGround) (h : commonType ts = some t) : t.isGround := by
  unfold commonType at h
  split at h
  · cases h
  · have hwithin : Subst.Within ∅ {} := ⟨.empty, by simp⟩
    have hpost := hwithin.post_choose (Subst.over_alt fun t ht => Ty.isGround_iff_over.1 (hts t ht))
    cases hres : (Solve.exec (Subst.choose (.alt ts)) {}).1 with
    | error e =>
      rw [hres] at h
      cases h
    | ok u =>
      rw [hres] at h hpost
      cases h
      exact Ty.isGround_iff_over.2 hpost.2.vars_mem

lemma typesIn_isGround (hplain : ∀ {k : Kind}, k.isCtx = false → k.slot = 0 → P (.plain k))
    (haround : ∀ {k : Kind} {t : Ty}, k.isCtx = false → P t → P (.around k t))
    (hcommon : ∀ {ts : List Ty} {t : Ty}, (∀ u ∈ ts, P u) → commonType ts = some t → P t) :
    TypesIn (fun v => v.isGround) P where
  plain := hplain
  around := haround
  common := hcommon
  fn := by simp [isGround]
  list := by simp [isGround]
  dict := by simp [isGround]

lemma ground_typeOf (v : Val) : v.isGround → v.typeOf.isGround :=
  (typesIn_isGround (fun hk _ => Ty.isGround_plain (Kind.isVar_eq_false_of_isCtx hk))
    (fun hk => Ty.isGround_around (Kind.isVar_eq_false_of_isCtx hk)) ground_commonType).typeOf_mem v

lemma typeOf_mem (hP : Ty.ClosedClass P) (v : Val) : v.isGround → P v.typeOf :=
  (typesIn_isGround hP.plain hP.around (commonType_mem hP)).typeOf_mem v

lemma closed_isGround : Closed fun v => v.isGround where
  atom := by
    intro v hv
    cases v <;> first | rfl | cases hv
  list := by simp [isGround]
  dict := by simp [isGround]
  typeOf := by
    intro v hv
    simpa [isGround] using ground_typeOf v hv
  void := rfl

end Val

/-! ## References -/

namespace Session

variable {find : String → Except Failure (Option Ty)}

mutual

lemma ground_resolveRefs (hfind : ∀ n, Definite (find n) fun t => ∀ u ∈ t, u.isGround) :
    ∀ t, t.isGround → Definite (resolveRefs find t) fun r => ∀ u ∈ r, u.isGround
  | .plain k, ht => by
    unfold resolveRefs
    split
    · exact .bind (hfind _) fun t ht => by simpa [Definite, pure, Except.pure] using ht
    · simpa [Definite] using ht
  | .detailed k name ps cs, ht => by
    unfold resolveRefs
    split
    · exact .bind (hfind _) fun t ht => by simpa [Definite, pure, Except.pure] using ht
    · obtain ⟨hvar, hps⟩ := Ty.isGround_iff.1 ht
      refine .bind (ground_resolveParamRefs hfind ps hps) ?_
      rintro ⟨ps', known⟩ ⟨hlength, hground⟩ u hu
      cases known with
      | false => cases hu
      | true =>
        cases hu
        refine Ty.isGround_iff.2 ⟨by simpa using hvar, ?_⟩
        rwa [Ty.params_withParams (t := .detailed k name ps cs) hlength]

lemma ground_resolveParamRefs (hfind : ∀ n, Definite (find n) fun t => ∀ u ∈ t, u.isGround) :
    ∀ ps : List Param, (∀ p ∈ ps, p.2.isGround) →
      Definite (resolveParamRefs find ps) fun r => r.1.length = ps.length ∧ ∀ p ∈ r.1, p.2.isGround
  | [], _ => ⟨rfl, nofun⟩
  | (n, t) :: ps, h => by
    refine .bind (ground_resolveRefs hfind t (h (n, t) (by simp))) fun r hr => ?_
    refine .bind (ground_resolveParamRefs hfind ps fun p hp => h p (by simp [hp])) ?_
    rintro ⟨rs, known⟩ ⟨hlength, hrs⟩
    refine ⟨by simpa using hlength, List.forall_mem_cons.2 ⟨?_, hrs⟩⟩
    cases r with
    | none => exact h (n, t) (by simp)
    | some u => exact hr u rfl

end

end Session

/-! ## Definitions and scopes -/

/-- The definition gives a ground value or a ground type, or else an operator that is known already.
-/
def Definition.isFirstOrder (d : Definition) : Bool :=
  match d.callable with
  | none => d.typ.isGround && d.val.all Val.isGround
  | some _ => d.val.isNone && !d.pending

lemma Definition.callable_ofVal {v : Val} (hv : v.isGround) : (ofVal v).callable = none := by
  cases v with
  | fn f => cases hv
  | _ => rfl

lemma Definition.ofVal_of_isGround {v : Val} (hv : v.isGround) :
    ofVal v = ⟨v.typeOf, some v, none, false⟩ :=
  congrArg (fun callable => mk v.typeOf (some v) callable false) (callable_ofVal hv)

lemma Definition.isFirstOrder_ofVal {v : Val} (hv : v.isGround) : (ofVal v).isFirstOrder := by
  rw [isFirstOrder, callable_ofVal hv]
  simp [ofVal, hv, Val.ground_typeOf v hv]

lemma Definition.isFirstOrder_ofCallable (c : Callable) : (ofCallable c).isFirstOrder := rfl

def Frame.isFirstOrder : Frame → Bool
  | catalog c => c.schemas.all fun p => p.2.isGround
  | locals defs | params defs => defs.all fun p => p.2.isFirstOrder
  | data _ v => v.isGround

lemma Frame.isFirstOrder_get? {f : Frame} (hf : f.isFirstOrder) (h : f.get? n = some d) :
    d.isFirstOrder := by
  rcases get?_cases h with ⟨c, rfl, hd⟩ | hd
  · rcases Catalog.get?_cases hd with ⟨p, hp, rfl⟩ | ⟨c, -, rfl⟩
    · exact Definition.isFirstOrder_ofVal (List.all_eq_true.1 hf p hp)
    · exact Definition.isFirstOrder_ofCallable c
  · cases hd with
    | locals hp | params hp => exact List.all_eq_true.1 hf _ hp
    | data hw => exact Definition.isFirstOrder_ofVal (Val.closed_isGround.path? hf hw)

def Frame.Literal : Frame → Prop
  | locals defs | params defs => ∀ p ∈ defs, ∀ v ∈ p.2.val, p.2.typ = v.typeOf
  | catalog _ | data _ _ => True

lemma Frame.Literal.get? {f : Frame} (hf : f.Literal) (h : f.get? n = some d) :
    ∀ v ∈ d.val, d.typ = v.typeOf := by
  rcases get?_cases h with ⟨c, rfl, hd⟩ | hd
  · rcases Catalog.get?_cases hd with ⟨p, -, rfl⟩ | ⟨c, -, rfl⟩
    · simp [Definition.ofVal]
    · simp [Definition.ofCallable]
  · cases hd with
    | locals hp | params hp => exact hf _ hp
    | data hw => simp [Definition.ofVal]

namespace Scope

/-- Names with a value have the type of the value. -/
def Literal (scope : Scope) : Prop := ∀ f ∈ scope, f.Literal

lemma Literal.lookup (h : scope.Literal) (hd : scope.lookup n = .ok (some d)) :
    ∀ v ∈ d.val, d.typ = v.typeOf := by
  obtain ⟨f, hf, hget⟩ := exists_of_lookup hd
  exact (h f hf).get? hget

/-- All that names stand for is first-order. -/
def FirstOrder (scope : Scope) : Prop := ∀ n d, scope.lookup n = .ok (some d) → d.isFirstOrder

lemma firstOrder_of_frames (h : ∀ f ∈ scope, f.isFirstOrder) : scope.FirstOrder := by
  intro n d hd
  obtain ⟨f, hf, hget⟩ := exists_of_lookup hd
  exact Frame.isFirstOrder_get? (h f hf) hget

def operator? (scope : Scope) (n : String) : Option Callable :=
  match scope.lookup n with
  | .ok (some d) => d.callable
  | _ => none

end Scope

end Resolvent
