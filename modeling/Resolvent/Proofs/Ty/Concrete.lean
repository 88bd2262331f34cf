import Resolvent.Proofs.Ty.RoundTrip
import Resolvent.Proofs.Ty.Simple
import Resolvent.Proofs.Ty.Whole

/-!
# Concrete types

A type is concrete if it is spelled out: its parts are of known kinds, none of them is a variable or
a self reference, and containers have the depth that their elements call for.
-/

namespace Resolvent

open List

namespace Kind

variable {j k l : Kind} {alts : Bool}

def known : List Kind := (named ++ marked).map (·.2)

lemma bare_mem_known (h : k.isKnown) : k.bare ∈ known := by
  have hbare : ∀ p ∈ named ++ marked, p.2.bare = p.2 := by decide
  obtain ⟨p, hp, hbits⟩ := List.any_eq_true.1 h
  refine List.mem_map.2 ⟨p, hp, ?_⟩
  rw [← hbare p hp, bare, bare, beq_iff_eq.1 hbits]

lemma family_meet (j k : Kind) : (meet j k).family = (meet j k).bits := by
  simp only [meet, family, UInt32.and_assoc, UInt32.and_self]

lemma meet_comm (j k : Kind) : meet j k = meet k j := by rw [meet, meet, UInt32.and_comm]

lemma meet_right (h : j.bits = (meet k l).bits) : meet j l = meet k l := by
  have hfamily : j.family = k.family &&& l.family := by rw [family, h]; exact family_meet k l
  simp only [meet, hfamily, UInt32.and_assoc, UInt32.and_self]

lemma meet_cont (hj : j.isKnown) (hk : k.isKnown) (hjc : j.isCont) (hkc : k.isCont)
    (hne : ((meet j k).bits == 0) = false) : (meet j k).isKnown ∧ (meet j k).isCont ∧
    ((meet j k).isObj → j.bits = obj.bits ∧ k.bits = obj.bits) :=
  (by decide : ∀ j ∈ known, ∀ k ∈ known, j.isCont → k.isCont → ((meet j k).bits == 0) = false →
    (meet j k).isKnown ∧ (meet j k).isCont ∧
    ((meet j k).isObj → j.bits = obj.bits ∧ k.bits = obj.bits))
    j.bare (bare_mem_known hj) k.bare (bare_mem_known hk) hjc hkc hne

lemma isCont_of_meet (hj : j.isKnown) (hk : k.isKnown) (h : (meet j k).isCont) :
    j.isCont ∧ k.isCont :=
  (by decide : ∀ j ∈ known, ∀ k ∈ known, (meet j k).isCont → j.isCont ∧ k.isCont)
    j.bare (bare_mem_known hj) k.bare (bare_mem_known hk) h

lemma isObj_of_meet (h : (meet j k).isObj) : j.isObj := by
  have hbits : (meet j k).bits &&& objMask = j.bits &&& objMask &&& (~~~ctxMask &&& k.family) := by
    simp only [meet, family]
    ac_rfl
  simp only [isObj, meets, bne_iff_ne, hbits] at h ⊢
  rintro hzero
  simp [hzero] at h

lemma isAny_of_isCont (h : k.isCont) : k.isAny = false := by
  refine beq_eq_false_iff_ne.2 fun hbits => ?_
  rw [isCont, meets, hbits] at h
  exact absurd h (by decide)

lemma not_isSpec_meet (hj : j.isKnown) (hk : k.isKnown) (hne : (j.family == k.family) = false)
    (h : (meet j k).isKnown) : (meet j k).isSpec = false :=
  (by decide : ∀ j ∈ known, ∀ k ∈ known, (j.family == k.family) = false → (meet j k).isKnown →
    (meet j k).isSpec = false) j.bare (bare_mem_known hj) k.bare (bare_mem_known hk) hne h

/-- Known, and neither a variable nor a self reference; an alternative only if it is admitted. -/
structure Spelled (alts : Bool) (k : Kind) : Prop where
  known : k.isKnown
  not_var : k.isVar = false
  not_self : k.isSelf = false
  alts_of_isAlt : k.isAlt → alts

lemma Spelled.of_bits (h : k.Spelled alts) (hbits : j.bits = k.bits) : j.Spelled alts := by
  obtain ⟨hknown, hvar, hself, halt⟩ := h
  constructor
  · simpa [isKnown, hbits] using hknown
  · simpa [isVar, hbits] using hvar
  · simpa [isSelf, hbits] using hself
  · simpa [isAlt, hbits] using halt

lemma Spelled.of_isCtx (hknown : k.isKnown) (hctx : k.isCtx = false) : k.Spelled alts where
  known := hknown
  not_var := (not_marked hctx).1
  not_self := (not_marked hctx).2.2.2.2
  alts_of_isAlt halt := by simp [(not_marked hctx).2.1] at halt

lemma Spelled.meet (h : (meet j k).isKnown) : (meet j k).Spelled alts :=
  .of_isCtx h (isCtx_family_and j k)

end Kind

namespace Ty

variable {t u : Ty} {ts : List Ty} {ps : List Param} {k : Kind} {name n : String}
  {cs : List (String × Int64)} {N M : String → Prop} {alts alts' : Bool} {p : Param}

/-- All kinds are spelled out, the names of object fields satisfy `N`, and containers have the depth
that their elements call for. -/
inductive Concrete (N : String → Prop) (alts : Bool) : Ty → Prop
  | mk {t : Ty} : t.kind.Spelled alts → (t.kind.isObj → ∀ p ∈ t.params, N p.1) →
      t.withParams t.params = t → (∀ p ∈ t.params, Concrete N alts p.2) → Concrete N alts t

namespace Concrete

lemma spelled (h : t.Concrete N alts) : t.kind.Spelled alts := by
  cases h with
  | mk hk _ _ _ => exact hk

lemma field (h : t.Concrete N alts) (hobj : t.kind.isObj) (hp : p ∈ t.params) : N p.1 := by
  cases h with
  | mk _ hnames _ _ => exact hnames hobj p hp

lemma depth (h : t.Concrete N alts) : t.withParams t.params = t := by
  cases h with
  | mk _ _ hdepth _ => exact hdepth

lemma part (h : t.Concrete N alts) (hp : p ∈ t.params) : p.2.Concrete N alts := by
  cases h with
  | mk _ _ _ hps => exact hps p hp

lemma isAlt_eq (h : t.Concrete N false) : t.kind.isAlt = false := by
  rw [Bool.eq_false_iff]
  exact fun halt => nomatch h.spelled.alts_of_isAlt halt

lemma ground (h : t.Concrete N alts) : t.Ground := by
  induction h with
  | mk hk _ hdepth _ ih => exact .mk hk.not_var hk.not_self hdepth ih

lemma mono (h : t.Concrete N alts) (hN : ∀ n, N n → M n) (halts : alts → alts') :
    t.Concrete M alts' := by
  induction h with
  | mk hk hnames hdepth _ ih =>
    exact .mk ⟨hk.known, hk.not_var, hk.not_self, fun halt => halts (hk.alts_of_isAlt halt)⟩
      (fun hobj p hp => hN p.1 (hnames hobj p hp)) hdepth ih

lemma plain (hk : k.Spelled alts) : (Ty.plain k).Concrete N alts :=
  .mk hk (by simp [params]) rfl (by simp [params])

lemma detailed (hk : k.Spelled alts) (hcont : k.isElemCont = false)
    (hnames : k.isObj → ∀ p ∈ ps, N p.1)
    (hps : ∀ p ∈ ps, p.2.Concrete N alts) : (Ty.detailed k name ps cs).Concrete N alts :=
  .mk hk hnames (withParams_params hcont) hps

lemma withParams (hk : t.kind.Spelled alts) (hnames : t.kind.isObj → ∀ p ∈ ps, N p.1)
    (hps : ∀ p ∈ ps, p.2.Concrete N alts) (hlen : ps.length = t.params.length) :
    (t.withParams ps).Concrete N alts := by
  have hobj : (t.withParams ps).kind.isObj = t.kind.isObj := by simp [Kind.isObj, Kind.meets]
  refine .mk (hk.of_bits (bits_withParams t ps)) ?_ ?_ ?_
  · rwa [hobj, params_withParams hlen]
  · rw [params_withParams hlen, withParams_withParams]
  · rwa [params_withParams hlen]

lemma around (hk : k.Spelled alts) (hobj : k.isObj = false) (h : t.Concrete N alts) :
    (Ty.around k t).Concrete N alts := by
  refine .mk (hk.of_bits rfl) (fun hobj' => ?_) (withParams_around k t)
    (by simpa [Ty.around, params] using h)
  exact absurd (show k.isObj from hobj') (by simp [hobj])

lemma setOptional (h : t.Concrete N alts) (b : Bool) :
    (t.setKind (t.kind.withOptional b)).Concrete N alts := by
  have hobj : (t.kind.withOptional b).isObj = t.kind.isObj := rfl
  refine .mk (h.spelled.of_bits (by simp [Kind.withOptional])) ?_ ?_ ?_
  · rw [kind_setKind, params_setKind]
    exact fun hobj p hp => h.field hobj hp
  · rw [params_setKind, withParams_setOptional h.depth]
  · rw [params_setKind]
    exact fun p hp => h.part hp

lemma deopt (h : t.Concrete N alts) : t.deopt.Concrete N alts := h.setOptional false

lemma optIf (h : t.Concrete N alts) (b : Bool) : (t.optIf b).Concrete N alts := by
  cases b with
  | false => exact h
  | true => exact h.setOptional true

lemma members (h : t.Concrete N alts) (hu : u ∈ t.members) : u.Concrete N alts := by
  unfold Ty.members at hu
  split at hu
  · obtain ⟨p, hp, rfl⟩ := List.mem_map.1 hu
    exact h.part hp
  · cases hu

lemma alternative (o : Bool) (h : ∀ t ∈ ts, t.Concrete N true) :
    (Ty.detailed (Kind.alt.withOptional o) "" (ts.map fun t => ("", t)) []).Concrete N true := by
  have hk : Kind.alt.Spelled true := ⟨by decide, rfl, rfl, fun _ => rfl⟩
  have hobj : ¬ Kind.alt.isObj := by decide
  exact detailed (hk.of_bits rfl) (show Kind.alt.isElemCont = false by decide) (fun h =>
    absurd h hobj) (by simpa using h)

lemma alt (h : ∀ t ∈ ts, t.Concrete N true) : (Ty.alt ts).Concrete N true :=
  alt_induct h (fun _ ht _ _ hp => ht.part hp) (fun _ => id) fun _ => alternative false

end Concrete

mutual

/-- The names of object fields, at any depth. -/
def fieldNames : Ty → List String
  | .plain _ => []
  | .detailed k _ ps _ => (if k.isObj then ps.map (·.1) else []) ++ fieldNamesParams ps

def fieldNamesParams : List (String × Ty) → List String
  | [] => []
  | (_, t) :: ps => t.fieldNames ++ fieldNamesParams ps

end

lemma mem_fieldNamesParams : n ∈ fieldNamesParams ps ↔ ∃ p ∈ ps, n ∈ p.2.fieldNames := by
  induction ps with
  | nil => simp [fieldNamesParams]
  | cons p ps ih => simp [fieldNamesParams, ih]

lemma mem_fieldNames : n ∈ t.fieldNames ↔ (t.kind.isObj ∧ ∃ p ∈ t.params, p.1 = n) ∨ ∃ p ∈ t.params,
    n ∈ p.2.fieldNames := by
  cases t with
  | plain k => simp [fieldNames, params]
  | detailed k name ps cs =>
    rw [fieldNames, mem_append, mem_fieldNamesParams]
    cases hobj : k.isObj <;> simp [kind, params, hobj]

lemma params_var (id : Nat) (constraints : List Ty) :
    (var id constraints).params = constraints.map fun c => ("", c) := by
  cases constraints <;> rfl

namespace Notated

lemma isKnown (h : t.Notated) : t.kind.isKnown := by
  have hknown {name : String} {j k : Kind} (hk : (name, k) ∈ Kind.named) (hbits : j.bits = k.bits) :
    j.isKnown := List.any_eq_true.2 ⟨(name, k), mem_append_left _ hk, by simp [hbits]⟩
  have hmarked {j k : Kind} (hk : k.isKnown) (hbits : j.bits = k.bits) : j.isKnown := by
    simpa [Kind.isKnown, hbits] using hk
  cases h with
  | kind o hk _ => exact hknown hk (bits_optIf _ o)
  | var o _ _ _ => exact hmarked (k := .var) (by decide) (by rw [bits_optIf, kind_var]; rfl)
  | self o => exact hmarked (k := .self) (by decide) (bits_optIf _ o)
  | ref o _ _ _ => exact hmarked (k := .ref) (by decide) (bits_optIf _ o)
  | sch o _ _ => exact hmarked (k := .sch) (by decide) (bits_optIf _ o)
  | cont o hk _ _ _ => exact hknown hk (bits_optIf _ o)
  | alt o _ _ _ _ => exact hmarked (k := .alt) (by decide) (bits_optIf _ o)
  | composite o hk _ _ _ _ _ _ _ => exact hknown hk (bits_optIf _ o)
  | constants o hk _ _ _ => exact hknown hk (bits_optIf _ o)

lemma part (h : t.Notated) (hp : p ∈ t.params) : p.2.Notated := by
  cases h with
  | var o _ _ hcs =>
    rw [params_optIf, params_var] at hp
    obtain ⟨c, hc, rfl⟩ := List.mem_map.1 hp
    exact hcs c hc
  | cont o _ _ he _ =>
    rw [params_optIf, around, params, mem_singleton] at hp
    exact hp ▸ he
  | alt o hcs _ _ _ =>
    rw [params_optIf] at hp
    obtain ⟨c, hc, rfl⟩ := List.mem_map.1 hp
    exact hcs c hc
  | composite o _ _ _ _ _ _ hps _ =>
    rw [params_optIf] at hp
    exact hps p hp
  | _ =>
    rw [params_optIf] at hp
    cases hp

lemma depth (h : t.Notated) (hv : t.kind.isVar = false) : t.withParams t.params = t := by
  have hoptIf {t : Ty} (o : Bool) (ht : t.withParams t.params = t) :
    (t.optIf o).withParams (t.optIf o).params = t.optIf o := by
    cases o with
    | false => exact ht
    | true => exact (congrArg _ (params_setKind _ _)).trans (withParams_setOptional ht true)
  cases h with
  | kind o _ _ => exact hoptIf o rfl
  | var o _ _ _ => simp at hv
  | self o => exact hoptIf o rfl
  | ref o _ _ _ => exact hoptIf o rfl
  | sch o _ _ => exact hoptIf o rfl
  | cont o _ _ _ _ => exact hoptIf o (withParams_around _ _)
  | alt o _ _ _ _ => exact hoptIf o (withParams_params (show Kind.alt.isElemCont = false by decide))
  | composite o hk hc _ _ _ _ _ _ =>
    exact hoptIf o (withParams_params (isElemCont_composite _ hk hc))
  | constants o _ _ _ _ => exact hoptIf o rfl

lemma concrete (h : t.Notated) (hvars : t.vars = []) (hself : t.selfFree)
    (hnames : ∀ n ∈ t.fieldNames, N n) : t.Concrete N true := by
  induction t using induct with
  | node t ih =>
    have hv : t.kind.isVar = false := by
      rw [Bool.eq_false_iff]
      intro hv
      simp [vars, gather_of_isVar hv] at hvars
    rw [vars, gather_of_not_isVar hv, flatMap_eq_nil_iff] at hvars
    rw [selfFree_iff] at hself
    refine .mk ⟨h.isKnown, hv, hself.1, fun _ => rfl⟩ ?_ (h.depth hv) ?_
    · exact fun hobj p hp => hnames p.1 (mem_fieldNames.2 (.inl ⟨hobj, p, hp, rfl⟩))
    · exact fun p hp => ih p hp (h.part hp) (hvars p hp) (hself.2 p hp) fun n hn =>
        hnames n (mem_fieldNames.2 (.inr ⟨p, hp, hn⟩))

end Notated

end Ty

end Resolvent
