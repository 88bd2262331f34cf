import Resolvent.Proofs.Subst.Step
import Resolvent.Proofs.Ty.ClosedClass

/-!
# Searches in a closed class of types

Unifying and choosing take types apart and put the parts together again.
-/

namespace Resolvent

open Ty Solve

variable {s : Subst} {a b t v : Ty} {ts : List Ty} {ps : List Param} {P : Ty → Prop}

namespace Subst

/-- Variables are bound to types of the class. -/
def Binds (P : Ty → Prop) (s : Subst) : Prop := ∀ i t, s.get? i = some t → P t

lemma Binds.empty : ({} : Subst).Binds P := by
  intro i t h
  cases h

lemma Binds.assign (h : s.Binds P) (ht : P t) (i : Nat) : (s.assign i t).Binds P := by
  intro j u hu
  by_cases hj : j = i
  · subst hj
    rw [get?_assign_self] at hu
    cases hu
    exact ht
  · exact h j u (by rwa [get?_assign_of_ne t hj] at hu)

lemma Binds.keeps_bind (h : s.Binds P) (ht : P t) : Keeps (Binds P) (bind v t) s fun _ => True := by
  rw [Keeps, exec_bindTo]
  split
  · split
    · exact ⟨h, by simp⟩
    · exact ⟨h.assign ht _, fun _ _ => trivial⟩
  · exact ⟨h, by simp⟩

structure Searches.Keep (P : Ty → Prop) (r : Searches) : Prop where
  unify : ∀ {s : Subst} {a b : Ty}, s.Binds P → P a → P b → Keeps (Binds P) (r.unify a b) s P
  choose : ∀ {s : Subst} {t : Ty}, s.Binds P → P t → Keeps (Binds P) (r.choose t) s P

end Subst

namespace Ty.ClosedClass

open Subst

variable (hP : ClosedClass P)
include hP

/-! ## Replacing variables -/

lemma apply (h : s.Binds P) (ht : P t) : P (s.apply t) := by
  suffices ∀ fuel t, P t → P (s.applyN fuel t) from this _ t ht
  intro fuel
  induction fuel with
  | zero => exact fun t ht => ht
  | succ fuel ih =>
    refine fun t ht => hP.substVars (fun i u hu => ?_) ht
    obtain ⟨b, hb, rfl⟩ := Option.map_eq_some_iff.1 hu
    exact ih b (h i b hb)

lemma instantiate (h : s.Binds P) (ht : P t) :
    P (s.instantiate t).1 ∧ (s.instantiate t).2.Binds P :=
  ⟨hP.renumber (hP.apply h ht), h⟩

lemma instantiateGeneric (h : s.Binds P) (ht : P t) : P (s.instantiateGeneric t).1 ∧
    (s.instantiateGeneric t).2.Binds P :=
  ⟨hP.renumber ht, h⟩

/-! ## One search around others -/

section

variable {r : Searches} (hr : r.Keep P)
include hr

lemma binds : Course.Binds (pure ()) (fun _ => r) (fun _ => Binds P) (fun _ => True) s (fun t _ =>
    P t) (fun t _ => P t) (fun t _ => P t) P fun _ => True where
  refl h := h
  trans _ h := h
  fails _ := trivial
  raw_step ht _ := ht
  part_step ht _ := ht
  unify h ha hb := keeps_iff.1 (hr.unify h ha hb)
  choose h ht := keeps_iff.1 (hr.choose h ht)
  whole_of_part ht := ht
  optIf b ht := hP.optIf ht b
  plain _ hctx hslot := hP.plain hctx hslot
  whole_step ht _ := ht
  deopt ht := hP.deopt ht
  param ht _ p hp := hP.part ht hp
  bare _ hctx := hP.plain hctx rfl
  meet {a b _} _ _ _ _ _ _ := by
    have hctx := Kind.isCtx_family_and a.kind b.kind
    exact ⟨hP.plain hctx rfl, fun e he => hP.around hctx he⟩
  obj _ _ _ hqs := hP.obj fun q hq => (hqs q hq).1
  choose_alt h _ hts := keeps_iff.1 (hr.choose h (hP.alt hts))
  choose_whole h ht := keeps_iff.1 (hr.choose h ht)
  over_whole ht := ht
  over_deopt ht := hP.deopt ht
  over_alt ha hb := hP.alt (by simpa using ⟨ha, hb⟩)
  over_merged hv ht _ := by
    refine hP.optIf (hP.var fun u hu => ?_) _
    exact (mem_foldl_addCandidate hu).elim (hP.members ht) (hP.members hv)
  assign h _ ht := (keeps_iff.1 (h.keeps_bind ht)).mono fun _ _ hr => hr.mono fun _ _ _ _ _ hw => hw

lemma keeps_unifyWith (h : s.Binds P) (ha : P a) (hb : P b) :
    Keeps (Binds P) (unifyWith r a b) s P :=
  keeps_iff.2 ((hP.binds hr).unifyWith h ha hb (hP.apply h ha) (hP.apply h hb) fun _ _ => trivial)

lemma keeps_chooseWith (h : s.Binds P) (ht : P t) : Keeps (Binds P) (chooseWith r t) s P := by
  have hu := hP.apply h ht
  refine .get_bind (.ite (fun _ => keeps_iff.2 ?_) fun _ => .ite (fun _ => .pure h hu) fun _ =>
    keeps_iff.2 ?_)
  · exact (hP.binds (s := s) hr).foldCandidates _ none h (fun t ht => hP.members hu ht) (by simp)
  · refine (hP.binds (s := s) hr).mapParams h (fun p hp => hP.part hu hp) fun qs _ hnames hqs =>
      hP.withParams hu hqs ?_
    simpa using congrArg List.length hnames

lemma keeps_realizeWith (h : s.Binds P) (ht : P t) : Keeps (Binds P) (realizeWith r t) s P := by
  refine .get_bind ?_
  refine .bind (hr.choose h (hP.apply h ht)) fun u s₁ h₁ hu => .get_bind ?_
  exact .ite (fun _ => .pure h₁ (hP.apply h₁ hu)) fun _ => .throw h₁

end

/-! ## The searches -/

lemma keep : Searches.Keep P ⟨unify, choose⟩ := by
  refine Searches.induct ?_ (fun r hr => ?_) fun u c hu hc => ?_
  · exact ⟨fun h _ _ => .throw h, fun h _ => .throw h⟩
  · exact ⟨hP.keeps_unifyWith hr, hP.keeps_chooseWith hr⟩
  · exact ⟨fun h ha hb => .get_bind ((hu _ _ _).unify h ha hb),
      fun h ht => .get_bind ((hc _ _).choose h ht)⟩

lemma keeps_unify (h : s.Binds P) (ha : P a) (hb : P b) : Keeps (Binds P) (unify a b) s P :=
  hP.keep.unify h ha hb

lemma keeps_choose (h : s.Binds P) (ht : P t) : Keeps (Binds P) (choose t) s P :=
  hP.keep.choose h ht

lemma keeps_realize (h : s.Binds P) (ht : P t) : Keeps (Binds P) (realize t) s P :=
  hP.keeps_realizeWith hP.keep h ht

end Ty.ClosedClass

end Resolvent
