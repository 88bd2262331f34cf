import Resolvent.Proofs.Subst.Simple
import Resolvent.Proofs.Ty.Concrete

/-!
# Searches over concrete types

Concrete types have no variables, so searches over them leave the substitution as it is.
-/

namespace Resolvent.Subst

open Solve Ty Bool

variable {s : Subst} {a b t : Ty} {ts : List Ty} {ps : List Param} {N : String → Prop} {alts : Bool}

/-- The searches leave the substitution `s` as it is, and keep types concrete. -/
structure Searches.Spells (r : Searches) (s : Subst) (N : String → Prop) : Prop where
  unify : ∀ {a b : Ty} {alts : Bool}, a.Concrete N alts → b.Concrete N alts →
  Keeps (Eq s) (r.unify a b) s (Concrete N alts)
  choose : ∀ {t : Ty}, t.Concrete N true → Keeps (Eq s) (r.choose t) s (Concrete N false)

lemma join_cases (h : join a b = .ok t) :
    ((a.kind.family == b.kind.family) = true ∧ a.kind.isSpec = false ∧ t = .plain a.kind.bare) ∨
    ((a.kind.family == b.kind.family) = false ∧ (Kind.meet a.kind b.kind).isVoid = false ∧
      (Kind.meet a.kind b.kind).isKnown ∧ (Kind.meet a.kind b.kind).isAny = false ∧
      (t = a ∨ t = b ∨ t = .plain (Kind.meet a.kind b.kind))) := by
  unfold join at h
  dsimp only at h
  split at h
  · next hfamily =>
    split at h
    · cases h
    · next hspec =>
      cases h
      exact .inl ⟨hfamily, eq_false_iff.2 hspec, rfl⟩
  · next hfamily =>
    split at h
    · cases h
    · next hcommon =>
      change ¬ ((Kind.meet a.kind b.kind).isVoid || !(Kind.meet a.kind b.kind).isKnown ||
        (Kind.meet a.kind b.kind).isAny) = true at hcommon
      obtain ⟨⟨hvoid, hknown⟩, hany⟩ : ((Kind.meet a.kind b.kind).isVoid = false ∧
        (Kind.meet a.kind b.kind).isKnown) ∧ (Kind.meet a.kind b.kind).isAny = false := by
        simpa only [not_eq_true, or_eq_false_iff, not_eq_false'] using hcommon
      refine .inr ⟨eq_false_iff.2 hfamily, hvoid, hknown, hany, ?_⟩
      split at h
      · cases h
        exact .inl rfl
      · split at h
        · cases h
          exact .inr (.inl rfl)
        · cases h
          exact .inr (.inr rfl)

section

variable {r : Searches} (hr : r.Spells s N)
include hr

lemma Searches.Spells.unifies :
    Course.Unifies (pure ()) (fun _ => r) (fun _ => Eq s) (fun _ => True) s
    (fun t _ => t.Concrete N true) (fun t _ => t.Concrete N false) fun t _ =>
    t.Concrete N false where
  refl h := h
  trans _ h := h
  fails _ := trivial
  raw_step ht _ := ht
  part_step ht _ := ht
  unify := by
    rintro _ _ _ rfl ha hb
    exact keeps_iff.1 (hr.unify ha hb)
  choose := by
    rintro _ _ rfl ht
    exact keeps_iff.1 (hr.choose ht)
  whole_of_part ht := ht
  optIf b ht := ht.optIf b
  plain hknown hctx _ := .plain (.of_isCtx hknown hctx)
  whole_step ht _ := ht
  deopt ht := ht.deopt
  param ht _ p hp := ht.part hp
  bare ht _ := .plain (ht.spelled.of_bits rfl)
  meet ha hb hca hcb hne hobj := by
    have hk : Kind.Spelled false _ :=
      .meet (Kind.meet_cont ha.spelled.known hb.spelled.known hca hcb hne).1
    exact ⟨.plain hk, fun e he => .around hk hobj he⟩
  obj ha hb hobj hqs := by
    refine .detailed (.of_isCtx (by decide) (by decide)) (by decide) (fun _ q hq => ?_) fun q hq =>
      (hqs q hq).1
    obtain ⟨-, p, hp | hp, heq⟩ := hqs q hq
    · exact heq ▸ ha.field (Kind.isObj_of_meet hobj) hp
    · exact heq ▸ hb.field (Kind.isObj_of_meet (Kind.meet_comm _ _ ▸ hobj)) hp
  choose_alt := by
    rintro _ ts rfl _ hts
    exact keeps_iff.1 (hr.choose (.alt fun t ht => (hts t ht).mono (fun _ hn => hn) (by simp)))

lemma keeps_mapParams (ht : t.Concrete N true) (halt : t.kind.isAlt = false) :
    Keeps (Eq s) (mapParams r.choose t) s (Concrete N false) := by
  have hk : t.kind.Spelled false :=
    ⟨ht.spelled.known, ht.spelled.not_var, ht.spelled.not_self, fun h => by simp [halt] at h⟩
  refine keeps_iff.2 (hr.unifies.mapParams rfl (fun p hp => ht.part hp) fun qs _ hnames hqs => ?_)
  refine .withParams hk (fun hobj q hq => ?_) hqs (by simpa using congrArg List.length hnames)
  have hname : q.1 ∈ t.params.map (·.1) := hnames ▸ List.mem_map_of_mem hq
  obtain ⟨p, hp, heq⟩ := List.mem_map.1 hname
  exact heq ▸ ht.field hobj hp

lemma Sound.keeps_unifyWith (h : s.Sound) (ha : a.Concrete N alts) (hb : b.Concrete N alts) :
    Keeps (Eq s) (unifyWith r a b) s (Concrete N alts) := by
  have hbound {t : Ty} (ht : t.Ground) : s.isBound t = false := by
    simp [isBound, varId?, ht.isVar_eq]
  refine .get_bind ?_
  simp only [h.apply_ground ha.ground, h.apply_ground hb.ground, ha.ground.isVar_eq,
    hb.ground.isVar_eq, hbound ha.ground, hbound hb.ground]
  refine .ite (fun _ => .pure rfl ha) fun _ => ?_
  refine .still_bind (hr.choose (ha.mono (fun _ hn => hn) fun _ => rfl)) fun ca hca => ?_
  refine .still_bind (hr.choose (hb.mono (fun _ hn => hn) fun _ => rfl)) fun cb hcb => ?_
  exact .still_bind (keeps_iff.2 (hr.unifies.unifyPlain rfl hca hcb)) fun res hres =>
    .pure rfl (hres.mono (fun _ hn => hn) (by simp))

lemma Sound.keeps_chooseWith (h : s.Sound) (ht : t.Concrete N true) :
    Keeps (Eq s) (chooseWith r t) s (Concrete N false) := by
  refine .get_bind ?_
  simp only [h.apply_ground ht.ground, ht.ground.isVar_eq]
  refine .ite (fun _ => ?_) fun halt => ?_
  · exact keeps_iff.2 (hr.unifies.foldCandidates _ none rfl (fun u hu => ht.members hu) (by simp))
  · exact keeps_mapParams hr ht (eq_false_iff.2 halt)

end

lemma Sound.spells (h : s.Sound) : Searches.Spells ⟨unify, choose⟩ s N := by
  refine Searches.induct (Q := (·.Spells s N)) ?_ (fun r hr => ?_) fun u c hu hc => ?_
  · exact ⟨fun _ _ => .throw rfl, fun _ => .throw rfl⟩
  · exact ⟨h.keeps_unifyWith hr, h.keeps_chooseWith hr⟩
  · exact ⟨fun ha hb => .get_bind ((hu _ _ s).unify ha hb),
      fun ht => .get_bind ((hc _ s).choose ht)⟩

lemma Sound.exec_choose_concrete (h : s.Sound) (ht : t.Concrete N false) :
    (choose t).exec s = (.ok t, s) := by
  induction t using Ty.induct with
  | node t ih =>
    have hparams : ∀ p ∈ t.params, (choose p.2).exec s = (.ok (id p.2), s) :=
      fun p hp => ih p hp (ht.part hp)
    rw [h.exec_choose_of_not_alt ht.ground ht.isAlt_eq hparams]
    simp [ht.depth]

end Resolvent.Subst
