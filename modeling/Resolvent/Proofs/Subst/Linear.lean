import Resolvent.Proofs.Subst.Absorb
import Resolvent.Proofs.Ty.Orderly

/-!
# Searches over types that share no variables

Where a variable occurs once, binding it does not reach into any other type at hand.
-/

namespace Resolvent

open Ty List

variable {α β : Type} {V : Finset Nat} {s s' : Subst} {t : Ty} {xs ys zs rest xs' : Multiset Nat}

namespace Subst

/-- Variables of the set are bound to types over the set without alternatives. -/
structure Clear (V : Finset Nat) (s : Subst) : Prop extends Within V s where
  plain : ∀ i ∈ V, ∀ b, s.get? i = some b → b.alternatives = []

lemma Clear.assign (h : s.Clear V) {id : Nat} {w : Ty} (hid : 0 < id) (hV : id ∈ V)
    (hover : w.Over V)
    (hplain : w.alternatives = []) (hocc : s.occurs id w = false) : (s.assign id w).Clear V where
  toWithin := (Grown.assign h.toWithin hid hV hover hocc).within
  plain i hi b hb := by
    by_cases hii : i = id
    · subst hii
      obtain rfl : w = b := by simpa using hb
      exact hplain
    · rw [get?_assign_of_ne w hii] at hb
      exact h.plain i hi b hb

lemma Clear.alternatives_apply (h : s.Clear V) (ht : t.Over V)
    (hnone : ∀ u ∈ t.alternatives, ∀ i ∈ u.outerVars, s.get? i = none) :
    (s.apply t).alternatives = t.alternatives.map settled := by
  induction t using h.sound.induct with
  | step t ih =>
    rw [h.sound.apply_eq]
    refine alternatives_substVars (fun i hi w hw => ?_) fun u hu i hi => by
      rw [hnone u hu i hi, Option.map_none]
    obtain ⟨b, hb, rfl⟩ := Option.map_eq_some_iff.1 hw
    have hplain : b.alternatives = [] := h.plain i (ht i hi) b hb
    rw [ih i (outerVars_subset_links s t hi) b hb (h.closed i (ht i hi) b hb) (by simp [hplain]),
      hplain, map_nil]

/-- The variables are different ones of the set, and none of them is bound. -/
structure Held (V : Finset Nat) (s : Subst) (xs : Multiset Nat) : Prop where
  nodup : xs.Nodup
  inside : ∀ i ∈ xs, i ∈ V
  unbound : ∀ i ∈ xs, s.get? i = none

lemma Held.mono (h : s.Held V xs) (hle : ys ≤ xs) : s.Held V ys where
  nodup := Multiset.nodup_of_le hle h.nodup
  inside i hi := h.inside i (Multiset.mem_of_le hle hi)
  unbound i hi := h.unbound i (Multiset.mem_of_le hle hi)

end Subst

namespace Solve

open Subst

/-- From clear substitutions that hold the variables `xs` the search goes to clear ones, and binds
none but `xs`. If it gives a result, this satisfies `P`, and of `xs` the variables `ys` of the
result are left unbound. -/
def Uses (V : Finset Nat) (m : Solve α) (xs : Multiset Nat) (ys : α → Multiset Nat) (P : α → Prop) :
    Prop :=
  ∀ s : Subst, s.Clear V → s.Held V xs → (m.exec s).2.Clear V ∧
    (∀ i, i ∉ xs → (m.exec s).2.get? i = s.get? i) ∧
      ∀ x, (m.exec s).1 = .ok x → P x ∧ ys x ≤ xs ∧ ∀ i ∈ ys x, (m.exec s).2.get? i = none

namespace Uses

variable {m m' : Solve α} {k : α → Solve β} {ys : α → Multiset Nat} {zs : β → Multiset Nat}
  {P P' : α → Prop} {Q : β → Prop} {e : TyError}

lemma pure {x : α} (hx : P x) (hle : ys x ≤ xs) : Uses V (Pure.pure x) xs ys P := by
  intro s hs hheld
  refine ⟨hs, fun _ _ => rfl, ?_⟩
  rintro _ ⟨⟩
  exact ⟨hx, hle, fun i hi => hheld.unbound i (Multiset.mem_of_le hle hi)⟩

lemma throw : Uses V (MonadExcept.throw e : Solve α) xs ys P :=
  fun _ hs _ => ⟨hs, fun _ _ => rfl, nofun⟩

lemma throw_bind : Uses V ((MonadExcept.throw e : Solve α) >>= k) xs zs Q :=
  fun _ hs _ => ⟨hs, fun _ _ => rfl, nofun⟩

lemma ofExcept {x : Except TyError α} (hx : ∀ y, x = .ok y → P y ∧ ys y ≤ xs) :
    Uses V (MonadExcept.ofExcept x : Solve α) xs ys P := by
  cases x with
  | error e => exact throw
  | ok y => exact pure (hx y rfl).1 (hx y rfl).2

lemma mono (h : Uses V m xs ys P) (hP : ∀ x, P x → P' x) : Uses V m xs ys P' := by
  intro s hs hheld
  obtain ⟨hs', hframe, hok⟩ := h s hs hheld
  exact ⟨hs', hframe, fun x hx => ⟨hP x (hok x hx).1, (hok x hx).2⟩⟩

lemma forget (h : Uses V m xs ys P) (hP : ∀ x, P x → (∀ i ∈ ys x, i ∈ V) → P' x) :
    Uses V m xs (fun _ => 0) P' := by
  intro s hs hheld
  obtain ⟨hs', hframe, hok⟩ := h s hs hheld
  refine ⟨hs', hframe,
    fun x hx => ⟨?_, Multiset.zero_le _, fun i hi => absurd hi (Multiset.notMem_zero i)⟩⟩
  obtain ⟨hx, hle, -⟩ := hok x hx
  exact hP x hx fun i hi => hheld.inside i (Multiset.mem_of_le hle hi)

lemma widen (h : Uses V m xs ys P) (hle : xs ≤ xs') : Uses V m xs' ys P := by
  intro s hs hheld
  obtain ⟨hs', hframe, hok⟩ := h s hs (hheld.mono hle)
  refine ⟨hs', fun i hi => hframe i fun hxs => hi (Multiset.mem_of_le hle hxs), fun x hx => ?_⟩
  obtain ⟨hP, hys, hunbound⟩ := hok x hx
  exact ⟨hP, hys.trans hle, hunbound⟩

lemma ite {c : Prop} [Decidable c] (ht : c → Uses V m xs ys P) (hf : ¬ c → Uses V m' xs ys P) :
    Uses V (if c then m else m') xs ys P := by
  split
  · next hc => exact ht hc
  · next hc => exact hf hc

lemma get_bind {k : Subst → Solve β}
    (h : ∀ s : Subst, s.Clear V → s.Held V xs → Uses V (k s) xs zs Q) :
    Uses V (get >>= k) xs zs Q :=
  fun s hs hheld => h s hs hheld s hs hheld

lemma held_after (h : Uses V m xs ys P) (hs : s.Clear V) (hheld : s.Held V (xs + rest)) {x : α}
    (hx : (m.exec s).1 = .ok x) : (m.exec s).2.Held V (ys x + rest) := by
  obtain ⟨_, hframe, hok⟩ := h s hs (hheld.mono (Multiset.le_add_right xs rest))
  obtain ⟨_, hle, hunbound⟩ := hok x hx
  have hle : ys x + rest ≤ xs + rest := add_le_add_left hle rest
  refine ⟨Multiset.nodup_of_le hle hheld.nodup,
    fun i hi => hheld.inside i (Multiset.mem_of_le hle hi), fun i hi => ?_⟩
  rcases Multiset.mem_add.1 hi with hi | hi
  · exact hunbound i hi
  · have hnot : i ∉ xs :=
      fun hxs => (Multiset.disjoint_left.1 (Multiset.nodup_add.1 hheld.nodup).2.2) hxs hi
    rw [hframe i hnot]
    exact hheld.unbound i (Multiset.mem_add.2 (.inr hi))

lemma bind (h : Uses V m xs ys P) (hk : ∀ x, P x → Uses V (k x) (ys x + rest) zs Q) :
    Uses V (m >>= k) (xs + rest) zs Q := by
  intro s hs hheld
  have hmore : xs ≤ xs + rest := Multiset.le_add_right xs rest
  have hafter {x : α} (hx : (m.exec s).1 = .ok x) := h.held_after hs hheld hx
  obtain ⟨hs₁, hframe, hok⟩ := h s hs (hheld.mono hmore)
  rw [exec_bind]
  rcases hm : m.exec s with ⟨e | x, s₁⟩ <;> rw [hm] at hs₁ hframe hok hafter
  · exact ⟨hs₁, fun i hi => hframe i fun hxs => hi (Multiset.mem_of_le hmore hxs), nofun⟩
  · obtain ⟨hP, hle, _⟩ := hok x rfl
    have hle : ys x + rest ≤ xs + rest := add_le_add_left hle rest
    obtain ⟨hs₂, hframe₂, hok₂⟩ := hk x hP s₁ hs₁ (hafter rfl)
    refine ⟨hs₂, fun i hi => ?_, fun y hy => ?_⟩
    · rw [hframe₂ i fun hin => hi (Multiset.mem_of_le hle hin)]
      exact hframe i fun hxs => hi (Multiset.mem_of_le hmore hxs)
    · obtain ⟨hQ, hzs, hunbound⟩ := hok₂ y hy
      exact ⟨hQ, hzs.trans hle, hunbound⟩

lemma bind_all (h : Uses V m xs ys P) (hk : ∀ x, P x → Uses V (k x) (ys x) zs Q) :
    Uses V (m >>= k) xs zs Q := by
  rw [← add_zero xs]
  refine h.bind fun x hx => ?_
  rw [add_zero]
  exact hk x hx

lemma attempt (h : Uses V m xs ys P) : Uses V m.attempt xs (fun r => r.toOption.elim 0 ys) fun r =>
    ∀ x, r = .ok x → P x := by
  intro s hs hheld
  obtain ⟨hs', hframe, hok⟩ := h s hs hheld
  rw [exec_attempt]
  refine ⟨hs', hframe, ?_⟩
  rintro _ ⟨⟩
  refine ⟨fun x hx => (hok x hx).1, ?_⟩
  cases hr : (m.exec s).1 with
  | error e => exact ⟨Multiset.zero_le _, fun i hi => absurd hi (Multiset.notMem_zero i)⟩
  | ok x => exact (hok x hr).2

lemma attempt_bind {k : Except TyError α → Solve β} (h : Uses V m xs ys P)
    (hok : ∀ x, P x → Uses V (k (.ok x)) (ys x + rest) zs Q)
    (herr : ∀ e, Uses V (k (.error e)) rest zs Q) : Uses V (m.attempt >>= k) (xs + rest) zs Q := by
  refine h.attempt.bind fun r hr => ?_
  cases r with
  | error e => exact (herr e).widen (Multiset.le_add_left rest _)
  | ok x => exact hok x (hr x rfl)

/-- A search over all parameters keeps their names. Of each part it takes the variables `f` and
leaves the variables `g`, the same ones under `c`. -/
lemma mapM_params {n : Ty → Solve Ty} {f g : Ty → Multiset Nat} {p : Ty → Prop} {c : Prop}
    {ps : List Param} (h : ∀ q ∈ ps, Uses V (n q.2) (f q.2) g fun u => p u ∧ (c → g u = f q.2)) :
    Uses V (ps.mapM fun (name, t) => do return (name, ← n t)) (ps.map fun q => f q.2).sum
      (fun qs => (qs.map fun q => g q.2).sum) fun qs => qs.map (·.1) = ps.map (·.1) ∧
      (∀ q ∈ qs, p q.2) ∧ (c → (qs.map fun q => g q.2).sum = (ps.map fun q => f q.2).sum) := by
  induction ps with
  | nil => exact .pure ⟨rfl, nofun, fun _ => rfl⟩ le_rfl
  | cons q ps ih =>
    rw [mapM_cons, map_cons, sum_cons]
    have hfirst : Uses V (do return (q.1, ← n q.2)) (f q.2) (fun q' : Param => g q'.2) fun q' =>
        q'.1 = q.1 ∧ p q'.2 ∧ (c → g q'.2 = f q.2) :=
      (h q (by simp)).bind_all fun u hu => .pure ⟨rfl, hu⟩ le_rfl
    refine hfirst.bind fun q' hq' => ?_
    rw [add_comm]
    refine (ih fun q hq => h q (by simp [hq])).bind fun qs hqs => .pure ⟨?_, ?_, fun hc => ?_⟩ ?_
    · rw [map_cons, map_cons, hq'.1, hqs.1]
    · exact forall_mem_cons.2 ⟨hq'.2.1, hqs.2.1⟩
    · rw [map_cons, sum_cons, hq'.2.2 hc, hqs.2.2 hc]
    · rw [map_cons, sum_cons, add_comm]

end Uses

end Solve

namespace Subst

open Solve

variable {a b u v : Ty} {ts : List Ty} {ps : List Param} {k : Kind} {r : Searches}
  {keyed alts : Bool}

def optBag (e : Option Ty) : Multiset Nat := e.elim 0 bag

@[simp] lemma optBag_none : optBag none = 0 := rfl

@[simp] lemma optBag_some (t : Ty) : optBag (some t) = t.bag := rfl

/-- The searches resolve alternatives that share no variables. Choosing from a type without
alternatives binds nothing, so that all of its variables are left. Outside of alternatives variables
may occur more than once, but all are let go of. -/
structure Searches.Resolves (V : Finset Nat) (r : Searches) : Prop where
  unify : ∀ {keyed : Bool} {a b : Ty}, a.Orderly keyed false → b.Orderly keyed false →
    Uses V (r.unify a b) (a.bag + b.bag) bag (Orderly keyed false)
  choose : ∀ {keyed alts : Bool} {t : Ty}, t.Orderly keyed alts →
    Uses V (r.choose t) t.bag bag fun u => u.Orderly keyed false ∧ (alts = false → u.bag = t.bag)
  chooseEach : ∀ {t : Ty}, t.Over V → (∀ u ∈ t.alternatives, ∃ keyed, u.Orderly keyed true) →
    Uses V (r.choose t) t.altBag (fun _ => 0) fun u => u.Over V ∧ u.alternatives = []

/-! ## Binding -/

lemma uses_bindTo (hv : v.kind.isVar) {w x : Ty} (hw : w.alternatives = []) (hbag : w.bag = x.bag)
    (hx : x.Orderly keyed false) :
    Uses V (do bind v w; return x) (v.bag + x.bag) bag (Orderly keyed false) := by
  intro s hs hheld
  rw [bag_of_isVar hv] at hheld ⊢
  have hapart (i : Nat) (hi : i ∈ x.bag) : i ≠ v.kind.slot := by
    rintro rfl
    exact Multiset.disjoint_left.1 (Multiset.nodup_add.1 hheld.nodup).2.2
      (Multiset.mem_singleton_self _) hi
  have hover : w.Over V :=
    fun i hi => hheld.inside i (Multiset.mem_add.2 (.inr (hbag ▸ mem_bag.2 hi)))
  have hslotV : v.kind.slot ∈ V := hheld.inside _ (by simp)
  have hid : v.varId? = some v.kind.slot := by simp [varId?, hv]
  rw [exec_bind, exec_bindTo, hid]
  rcases hslot : v.kind.slot with _ | id
  · exact ⟨hs, fun _ _ => rfl, by simp⟩
  · dsimp only
    cases hocc : s.occurs (id + 1) w with
    | true => exact ⟨hs, fun _ _ => rfl, by simp⟩
    | false =>
      rw [hslot] at hapart hslotV
      refine ⟨hs.assign (by omega) hslotV hover hw hocc, fun i hi => get?_assign_of_ne w ?_, ?_⟩
      · rintro rfl
        exact hi (by simp)
      · rintro _ ⟨⟩
        refine ⟨hx, Multiset.le_add_left _ _, fun i hi => ?_⟩
        change (s.assign (id + 1) w).get? i = none
        rw [get?_assign_of_ne w (hapart i hi)]
        exact hheld.unbound i (Multiset.mem_add.2 (.inr hi))

section

variable (hr : r.Resolves V)
include hr

lemma uses_bindVar (hv : v.kind.isVar) (ht : t.Orderly keyed false) :
    Uses V (bindVar r.choose v t) (v.bag + t.bag) bag (Orderly keyed false) := by
  unfold bindVar
  split
  · next id hid =>
    obtain ⟨hvar, rfl⟩ : t.kind.isVar ∧ t.kind.slot = id := by simpa [varId?] using hid
    refine .ite (fun _ => .pure ht (Multiset.le_add_left _ _)) fun _ => ?_
    have hmerged (cs : List Ty) : ((var t.kind.slot cs).optIf t.isOpt).Orderly keyed false :=
      .var (by simp) (ht.keyed_of_isVar hvar)
    have hbag (cs : List Ty) : ((var t.kind.slot cs).optIf t.isOpt).bag = t.bag := by
      rw [bag_optIf, bag_of_isVar (by simp), slot_var, bag_of_isVar hvar]
    rw [← hbag]
    exact uses_bindTo hv (hmerged _).alternatives_eq rfl (hmerged _)
  · have hbind : Uses V (do bind v (if v.isOpt then t.deopt else t); return t) (v.bag + t.bag) bag
      (Orderly keyed false) := by
      split
      · exact uses_bindTo hv ht.deopt.alternatives_eq (bag_deopt t) ht
      · exact uses_bindTo hv ht.alternatives_eq rfl ht
    refine .ite (fun _ => hbind) fun _ => ?_
    -- The constraints are checked on what is chosen, but the variable is bound to the type itself.
    rw [add_comm]
    refine (hr.choose ht).bind fun c hc => ?_
    rw [hc.2 rfl, add_comm]
    exact .ite (fun _ => hbind) fun _ => .throw_bind

/-! ## The parts of a search -/

lemma uses_elemOf (hv : t.kind.isVar = false) (ht : t.Orderly keyed false) :
    Uses V (elemOf r.choose t) t.bag optBag fun e => ∀ u, e = some u → u.Orderly keyed false := by
  refine .ite (fun _ => .pure (fun u hu => ht.elem? hv hu) ?_) fun _ => ?_
  · cases he : t.elem? with
    | none => exact Multiset.zero_le _
    | some u => exact bag_elem?_le hv he
  · refine .ite (fun _ => .pure nofun (Multiset.zero_le _)) fun _ => ?_
    have halt : (alt (t.params.map (·.2))).Orderly keyed true := by
      refine .alt fun u hu => ?_
      obtain ⟨p, hp, rfl⟩ := List.mem_map.1 hu
      exact (ht.part hv hp).mono
    have hle : (alt (t.params.map (·.2))).bag ≤ t.bag := by
      rw [bag_of_not_isVar hv]
      refine (bag_alt_le _).trans_eq ?_
      rw [List.map_map]
      rfl
    refine ((hr.choose halt).widen hle).bind_all fun c hc => .pure ?_ le_rfl
    rintro u ⟨⟩
    exact hc.1

lemma uses_unifyFields (hv : b.kind.isVar = false) (hb : b.Orderly keyed false)
    (hps : ∀ p ∈ ps, p.2.Orderly keyed false)
    (hkeys : keyed → ∀ p ∈ ps, Param.key (Param.key p.1) = Param.key p.1) :
    Uses V (unifyFields r.unify b ps) (bagParams ps + bagParams (matched b ps)) bagParams fun qs =>
      (∀ q ∈ qs, q.2.Orderly keyed false) ∧
      (keyed → (∀ q ∈ qs, Param.key (Param.key q.1) = Param.key q.1) ∧
        (qs.map fun q => Param.key q.1).Sublist (ps.map fun p => Param.key p.1)) := by
  induction ps with
  | nil => exact .pure ⟨nofun, fun _ => ⟨nofun, .slnil⟩⟩ (Multiset.zero_le _)
  | cons p ps ih =>
    obtain ⟨n, t⟩ := p
    have ih := ih (fun p hp => hps p (by simp [hp])) fun hkeyed p hp =>
      hkeys hkeyed p (by simp [hp])
    rw [unifyFields]
    split
    · next m u hfield =>
      have hu : u.Orderly keyed false := hb.part hv (mem_of_find?_eq_some hfield)
      rw [matched_cons_some (p := (n, t)) hfield, bagParams_cons, bagParams_cons, add_add_add_comm]
      refine (hr.unify (hps (n, t) (by simp)) hu).bind fun typ htyp => ?_
      rw [add_comm]
      refine ih.bind fun fields hfields => .pure ⟨?_, fun hkeyed => ?_⟩ ?_
      · exact forall_mem_cons.2 ⟨htyp, hfields.1⟩
      · obtain ⟨hkeyed', hsub⟩ := hfields.2 hkeyed
        have hn : Param.key (Param.key n) = Param.key n := hkeys hkeyed (n, t) (by simp)
        have hname : Param.key (if Param.isOpt n then m else n) = Param.key n := by
          split
          · exact (key_of_field? hfield).trans hn
          · rfl
        refine ⟨forall_mem_cons.2 ⟨?_, hkeyed'⟩, ?_⟩
        · rw [hname, hn]
        · rw [map_cons, hname]
          exact hsub.cons_cons _
      · rw [bagParams_cons, add_comm]
    · next hfield =>
      rw [matched_cons_none (p := (n, t)) hfield]
      have hle : bagParams ps + bagParams (matched b ps) ≤ bagParams ((n, t) :: ps) +
        bagParams (matched b ps) := by
        exact add_le_add_left (Multiset.le_add_left _ _) _
      refine (ih.mono fun qs hqs => ⟨hqs.1, fun hkeyed => ?_⟩).widen hle
      exact ⟨(hqs.2 hkeyed).1, (hqs.2 hkeyed).2.cons _⟩

lemma uses_unifyObjects (hv : a.kind.isVar = false ∧ b.kind.isVar = false) (hobj : a.kind.isObj)
    (ha : a.Orderly keyed false) (hb : b.Orderly keyed false) :
    Uses V (unifyObjects r.unify a b) (a.bag + b.bag) bag (Orderly keyed false) := by
  refine .ite (fun _ => .pure (.plain rfl rfl) ?_) fun _ => ?_
  · rw [bag_plain rfl]
    exact Multiset.zero_le _
  · have hapart (hkeyed : keyed) := Param.apart_iff.1 (ha.apart hkeyed hobj)
    have hle : bagParams a.params + bagParams (matched b a.params) ≤ a.bag + b.bag := by
      rw [bag_of_not_isVar hv.1]
      exact add_le_add_right (bag_matched_le ha hobj hb hv.2) _
    have hfields := uses_unifyFields hr hv.2 hb (fun p hp => ha.part hv.1 hp) fun hkeyed =>
      (hapart hkeyed).1
    refine (hfields.widen hle).bind_all fun fields hfields => ?_
    refine .pure (.obj (fun hkeyed => ?_) hfields.1) (bag_of_not_isVar rfl).le
    obtain ⟨hkeys, hsub⟩ := hfields.2 hkeyed
    exact Param.apart_iff.2 ⟨hkeys, hsub.nodup (hapart hkeyed).2⟩

omit hr in
lemma uses_cont (hk : k.isCtx = false) (hobj : k.isObj = false) {e : Ty}
    (he : e.Orderly keyed false) (hle : e.bag ≤ xs) :
    Uses V (ofExcept (cont k e)) xs bag (Orderly keyed false) := by
  obtain ⟨hv, halt, -⟩ := Kind.not_marked hk
  refine .ofExcept fun j hj => ?_
  obtain rfl := eq_around_of_cont hj
  exact ⟨.around hv halt hobj he, (bag_around hv e).trans_le hle⟩

lemma uses_unifyElems (hk : k.isCtx = false) (hobj : k.isObj = false) {ea eb : Option Ty}
    (hea : ∀ u, ea = some u → u.Orderly keyed false)
    (heb : ∀ u, eb = some u → u.Orderly keyed false) :
    Uses V (unifyElems r.unify k ea eb) (optBag ea + optBag eb) bag (Orderly keyed false) := by
  obtain ⟨hv, halt, -⟩ := Kind.not_marked hk
  rcases ea with _ | x <;> rcases eb with _ | y
  · exact .pure (.plain hv halt) (bag_plain hv).le
  · exact uses_cont hk hobj (heb y rfl) (Multiset.le_add_left _ _)
  · exact uses_cont hk hobj (hea x rfl) (Multiset.le_add_right _ _)
  · exact (hr.unify (hea x rfl) (heb y rfl)).bind_all fun e he => uses_cont hk hobj he le_rfl

section

variable (ha : a.Orderly keyed false) (hb : b.Orderly keyed false)
include ha hb

lemma uses_unifyContainers (hv : a.kind.isVar = false ∧ b.kind.isVar = false) :
    Uses V (unifyContainers r.unify r.choose a b) (a.bag + b.bag) bag (Orderly keyed false) := by
  refine .ite (fun _ => .throw) fun _ => .ite (fun hobj => ?_) fun hobj => ?_
  · exact uses_unifyObjects hr hv (Kind.isObj_of_meet hobj) ha hb
  · refine (uses_elemOf hr hv.1 ha).bind fun ea hea => ?_
    rw [add_comm]
    refine (uses_elemOf hr hv.2 hb).bind fun eb heb => ?_
    rw [add_comm]
    exact uses_unifyElems hr (Kind.isCtx_family_and a.kind b.kind)
      (Bool.eq_false_iff.2 hobj) hea heb

omit hr in
lemma uses_join (hv : a.kind.isVar = false) :
    Uses V (ofExcept (join a b)) (a.bag + b.bag) bag (Orderly keyed false) := by
  have hplain {k : Kind} (hvar : k.isVar = false) (halt : k.isAlt = false) :
      (plain k).Orderly keyed false ∧ (plain k).bag ≤ a.bag + b.bag :=
    ⟨.plain hvar halt, (bag_plain hvar).trans_le (Multiset.zero_le _)⟩
  refine .ofExcept fun j hj => ?_
  obtain ⟨-, -, rfl⟩ | ⟨-, -, -, -, rfl | rfl | rfl⟩ := join_cases hj
  · exact hplain hv ha.isAlt_eq
  · exact ⟨ha, Multiset.le_add_right _ _⟩
  · exact ⟨hb, Multiset.le_add_left _ _⟩
  · obtain ⟨hvar, halt, -⟩ := Kind.not_marked (Kind.isCtx_family_and a.kind b.kind)
    exact hplain hvar halt

lemma uses_unifyBare :
    Uses V (unifyBare r.unify r.choose a b) (a.bag + b.bag) bag (Orderly keyed false) := by
  have hfirst : Uses V (pure a) (a.bag + b.bag) bag (Orderly keyed false) :=
    .pure ha (Multiset.le_add_right _ _)
  refine .ite (fun _ => hfirst) fun _ => ?_
  refine .ite (fun _ => .pure hb (Multiset.le_add_left _ _)) fun _ =>
    .ite (fun _ => hfirst) fun _ => ?_
  refine .ite (fun _ => .throw) fun _ => .ite (fun _ => .throw) fun _ =>
    .ite (fun _ => .throw) fun hctx => ?_
  have hv : a.kind.isVar = false ∧ b.kind.isVar = false := by
    simp only [Bool.or_eq_true, not_or, Bool.not_eq_true] at hctx
    exact ⟨Kind.isVar_eq_false_of_isCtx hctx.1, Kind.isVar_eq_false_of_isCtx hctx.2⟩
  exact .ite (fun _ => uses_unifyContainers hr ha hb hv) fun _ => uses_join ha hb hv.1

lemma uses_unifyPlain :
    Uses V (unifyPlain r.unify r.choose a b) (a.bag + b.bag) bag (Orderly keyed false) := by
  rw [unifyPlain_eq]
  refine .ite (fun _ => .pure ha (Multiset.le_add_right _ _)) fun _ => ?_
  have hbare := uses_unifyBare hr ha.deopt hb.deopt
  rw [bag_deopt, bag_deopt] at hbare
  exact hbare.bind_all fun res hres => .pure (hres.optIf _) (bag_optIf res _).le

end

lemma uses_foldCandidates (optional : Bool) {acc : Option Ty} (hts : ∀ t ∈ ts, t.Orderly keyed true)
    (hacc : ∀ t, acc = some t → t.Orderly keyed false) :
    Uses V (foldCandidates r.unify r.choose optional ts acc) (optBag acc + (ts.map bag).sum) bag
    (Orderly keyed false) := by
  induction ts generalizing acc with
  | nil =>
    cases acc with
    | none => exact .pure (.plain rfl rfl) ((bag_plain rfl).trans_le (Multiset.zero_le _))
    | some t => exact .pure ((hacc t rfl).optIf _) ((bag_optIf t _).trans_le
        (Multiset.le_add_right _ _))
  | cons t ts ih =>
    have ih {u : Ty} (hu : u.Orderly keyed false) :
        Uses V (foldCandidates r.unify r.choose optional ts (some u)) (u.bag + (ts.map bag).sum) bag
        (Orderly keyed false) :=
      ih (fun t ht => hts t (by simp [ht])) (by simpa using hu)
    have hany {xs : Multiset Nat} :
      Uses V (pure (Ty.any.optIf optional)) xs bag (Orderly keyed false) :=
      .pure ((Orderly.plain rfl rfl).optIf _) ((bag_optIf _ _).trans_le (Multiset.zero_le _))
    rw [map_cons, sum_cons, add_left_comm]
    refine (hr.choose (hts t (by simp))).bind fun c hc => ?_
    cases acc with
    | none =>
      rw [optBag_none, zero_add]
      exact ih hc.1
    | some prev =>
      rw [← add_assoc, add_comm c.bag]
      -- When the two do not unify their variables may be bound, but `any` has none.
      refine (hr.unify (hacc prev rfl) hc.1).attempt_bind (fun joined hjoined => ih hjoined)
        fun e => ?_
      cases e with
      | noCommonType => exact hany
      | constraint => exact hany
      | _ => exact .throw

lemma uses_chooseAlt (optional : Bool) (halt : t.kind.isAlt) (ht : t.Orderly keyed alts) :
    Uses V (foldCandidates r.unify r.choose optional t.members none) t.bag bag
    (Orderly keyed false) := by
  have hv : t.kind.isVar = false := Kind.isVar_eq_false_of_isAlt halt
  have hparts : t.members = t.params.map (·.2) := by simp [members, halt]
  have hmembers (u : Ty) (hu : u ∈ t.members) : u.Orderly keyed true := by
    rw [hparts] at hu
    obtain ⟨p, hp, rfl⟩ := List.mem_map.1 hu
    exact (ht.part hv hp).mono
  have hbag : t.bag = optBag none + (t.members.map bag).sum := by
    rw [bag_of_not_isVar hv, optBag_none, zero_add, hparts, List.map_map]
    rfl
  rw [hbag]
  exact uses_foldCandidates hr _ hmembers (by simp)

lemma uses_mapParams (hv : t.kind.isVar = false) (halt : t.kind.isAlt = false)
    (ht : t.Orderly keyed alts) :
    Uses V (mapParams r.choose t) t.bag bag fun u => u.Orderly keyed false ∧
    (alts = false → u.bag = t.bag) := by
  rw [bag_of_not_isVar hv]
  refine Uses.bind_all (.mapM_params fun p hp => hr.choose (ht.part hv hp)) fun qs hqs => ?_
  obtain ⟨hnames, horderly, hbag⟩ := hqs
  have hqs : (t.withParams qs).bag = bagParams qs := by
    rw [bag_of_not_isVar (by simpa using hv),
      params_withParams (by simpa using congrArg length hnames)]
  exact .pure ⟨ht.withParams hv (by simp [halt]) hnames horderly,
    fun halts => hqs.trans (hbag halts)⟩ hqs.le

lemma uses_mapParams_each (hv : t.kind.isVar = false) (halt : t.kind.isAlt = false)
    (hover : t.Over V) (ht : ∀ u ∈ t.alternatives, ∃ keyed, u.Orderly keyed true) :
    Uses V (mapParams r.choose t) t.altBag (fun _ => 0) fun u => u.Over V ∧
    u.alternatives = [] := by
  rw [altBag_of_not_isAlt hv halt]
  rw [alternatives_of_not_isAlt hv halt] at ht
  have hpart (p : Param) (hp : p ∈ t.params) :
      Uses V (r.choose p.2) p.2.altBag (fun _ => 0) fun u => (u.Over V ∧ u.alternatives = []) ∧
      (False → 0 = p.2.altBag) :=
    (hr.chooseEach ((over_of_not_isVar hv).1 hover p hp) fun u hu =>
      ht u (mem_flatMap.2 ⟨p, hp, hu⟩)).mono fun u hu => ⟨hu, False.elim⟩
  refine Uses.bind_all (.mapM_params hpart) fun qs hqs => .pure ⟨?_, ?_⟩ (Multiset.zero_le _)
  · rw [over_of_not_isVar (by simpa using hv),
      params_withParams (by simpa using congrArg length hqs.1)]
    exact fun q hq => (hqs.2.1 q hq).1
  · rw [alternatives_eq_nil_iff (by simpa using hv),
      params_withParams (by simpa using congrArg length hqs.1)]
    exact ⟨by rwa [Kind.isAlt, bits_withParams], fun q hq => (hqs.2.1 q hq).2⟩

/-! ## One more search -/

omit hr in
lemma Held.apply_eq (h : s.Held V xs) (hs : s.Clear V) (hle : t.bag ≤ xs) : s.apply t = t.settled :=
  hs.sound.apply_of_unbound fun i hi => h.unbound i (Multiset.mem_of_le hle (mem_bag.2 hi))

omit hr in
lemma Held.isBound_eq (h : s.Held V xs) (hle : t.bag ≤ xs) : s.isBound t = false := by
  cases hv : t.kind.isVar with
  | false => simp [isBound, varId?, hv]
  | true =>
    rw [bag_of_isVar hv] at hle
    have hnone : s.get? t.kind.slot = none := h.unbound _ (Multiset.singleton_le.1 hle)
    simp [isBound, varId?, hv, hnone]

lemma uses_unifyWith (ha : a.Orderly keyed false) (hb : b.Orderly keyed false) :
    Uses V (unifyWith r a b) (a.bag + b.bag) bag (Orderly keyed false) := by
  have hle : a.bag ≤ a.bag + b.bag ∧ b.bag ≤ a.bag + b.bag :=
    ⟨Multiset.le_add_right _ _, Multiset.le_add_left _ _⟩
  refine .get_bind fun s hs hheld => ?_
  simp only [hheld.apply_eq hs hle.1, hheld.apply_eq hs hle.2, hheld.isBound_eq hle.1,
    hheld.isBound_eq hle.2]
  rw [← bag_settled a, ← bag_settled b]
  refine .ite (fun _ => .pure ha.settled (Multiset.le_add_right _ _)) fun _ => ?_
  refine .ite (fun hva => uses_bindVar hr hva hb.settled) fun hva =>
    .ite (fun hvb => ?_) fun hvb => ?_
  · rw [add_comm]
    exact uses_bindVar hr hvb ha.settled
  · refine (hr.choose ha.settled).bind fun ca hca => ?_
    rw [add_comm]
    refine (hr.choose hb.settled).bind fun cb hcb => ?_
    rw [add_comm]
    exact (uses_unifyPlain hr hca.1 hcb.1).bind_all fun res hres => .pure hres le_rfl

lemma uses_chooseWith (ht : t.Orderly keyed alts) :
    Uses V (chooseWith r t) t.bag bag fun u => u.Orderly keyed false ∧
    (alts = false → u.bag = t.bag) := by
  refine .get_bind fun s hs hheld => ?_
  simp only [hheld.apply_eq hs le_rfl]
  rw [← bag_settled t]
  refine .ite (fun halt => ?_) fun halt => .ite (fun hv => ?_) fun hv => ?_
  · refine (uses_chooseAlt hr _ halt ht.settled).mono fun u hu => ⟨hu, ?_⟩
    rintro rfl
    simp [ht.settled.isAlt_eq] at halt
  · exact .pure ⟨.var hv (ht.settled.keyed_of_isVar hv), fun _ => rfl⟩ le_rfl
  · exact uses_mapParams hr (Bool.eq_false_iff.2 hv) (Bool.eq_false_iff.2 halt) ht.settled

lemma uses_chooseWith_each (hover : t.Over V)
    (ht : ∀ u ∈ t.alternatives, ∃ keyed, u.Orderly keyed true) :
    Uses V (chooseWith r t) t.altBag (fun _ => 0) fun u => u.Over V ∧ u.alternatives = [] := by
  refine .get_bind fun s hs hheld => ?_
  have hnone (u : Ty) (hu : u ∈ t.alternatives) (i : Nat) (hi : i ∈ u.outerVars) :
    s.get? i = none := hheld.unbound i (Multiset.mem_of_le (bag_le_altBag hu) (mem_bag.2 hi))
  have halts := hs.alternatives_apply hover hnone
  have hbag : (s.apply t).altBag = t.altBag := by simp [altBag, halts, Function.comp_def]
  have hover : (s.apply t).Over V := hs.toWithin.apply hover
  replace ht : ∀ u ∈ (s.apply t).alternatives, ∃ keyed, u.Orderly keyed true := by
    rw [halts]
    intro w hw
    obtain ⟨u, hu, rfl⟩ := List.mem_map.1 hw
    obtain ⟨keyed, horderly⟩ := ht u hu
    exact ⟨keyed, horderly.settled⟩
  rw [← hbag]
  generalize s.apply t = t at hover ht
  refine .ite (fun halt => ?_) fun halt => .ite (fun hv => ?_) fun hv => ?_
  · obtain ⟨keyed, horderly⟩ := ht t (by simp [alternatives_of_isAlt halt])
    rw [altBag_of_isAlt halt]
    exact (uses_chooseAlt hr _ halt horderly).forget fun u hu hin => ⟨hin, hu.alternatives_eq⟩
  · exact .pure ⟨hover, alternatives_of_isVar hv⟩ (Multiset.zero_le _)
  · exact uses_mapParams_each hr (Bool.eq_false_iff.2 hv) (Bool.eq_false_iff.2 halt) hover ht

end

/-! ## All searches -/

lemma resolves : Searches.Resolves V ⟨unify, choose⟩ := by
  refine Searches.induct ?_ (fun r h => ?_) fun u c hu hc => ?_
  · exact ⟨fun _ _ => .throw, fun _ => .throw, fun _ _ => .throw⟩
  · exact ⟨uses_unifyWith h, uses_chooseWith h, uses_chooseWith_each h⟩
  · exact ⟨fun ha hb => .get_bind fun s _ _ => (hu _ _ s).unify ha hb,
      fun ht => .get_bind fun s _ _ => (hc _ s).choose ht,
      fun ho ht => .get_bind fun s _ _ => (hc _ s).chooseEach ho ht⟩

end Subst

end Resolvent
