import Resolvent.Proofs.Subst.History
import Resolvent.Proofs.Ty.Simple

/-!
# Searches over simple types

Simple types have no variables, so searches over them bind nothing.
-/

namespace Resolvent.Subst

open Solve Ty Option Bool

variable {s : Subst} {t u : Ty} {a b : Shape} {o p : Bool} {n : Nat} {found : Option Shape}
  {g : Ty → Ty} {f : Ty → Solve Ty} {m : Solve Ty}

lemma Sound.apply_ground (h : s.Sound) (ht : t.Ground) : s.apply t = t := by
  rw [h.apply_of_unbound (by simp [outerVars, ht.gather_eq]), ht.settled_eq]

lemma Sound.occurs_ground (h : s.Sound) (ht : t.Ground) (i : Nat) : s.occurs i t = false := by
  rw [eq_false_iff, Ne, h.occurs_iff]
  rintro ⟨j, hj, _⟩
  simp [links, ht.gather_eq] at hj

/-! ## Choosing -/

lemma exec_mapM_params {ps : List Param} (h : ∀ p ∈ ps, (f p.2).exec s = (.ok (g p.2), s)) :
    (ps.mapM fun ((n, p) : Param) => do return (n, ← f p)).exec s =
    (.ok (ps.map fun p => (p.1, g p.2)), s) := by
  induction ps with
  | nil => rfl
  | cons p ps ih =>
    rw [List.mapM_cons, exec_bind, exec_bind, h p (by simp)]
    dsimp only [exec_pure]
    rw [exec_bind, ih fun q hq => h q (by simp [hq])]
    rfl

lemma exec_mapParams (h : ∀ p ∈ t.params, (f p.2).exec s = (.ok (g p.2), s)) :
    (mapParams f t).exec s = (.ok (t.withParams (t.params.map fun p => (p.1, g p.2))), s) := by
  rw [mapParams, exec_bind, exec_mapM_params h]
  rfl

lemma Sound.exec_choose_of_not_alt (h : s.Sound) (ht : t.Ground) (halt : t.kind.isAlt = false)
    (hparams : ∀ p ∈ t.params, (choose p.2).exec s = (.ok (g p.2), s)) :
    (choose t).exec s = (.ok (t.withParams (t.params.map fun p => (p.1, g p.2))), s) := by
  have hv : t.kind.isVar = false := ht.isVar_eq
  rw [h.exec_choose, chooseWith, exec_get_bind]
  simp only [h.apply_ground ht, halt, hv]
  exact exec_mapParams hparams

lemma Sound.exec_choose_ty (h : s.Sound) (a : Shape) (o : Bool) :
    (choose (a.ty o)).exec s = (.ok (a.ty o), s) := by
  have hself (a : Shape) (o : Bool) :
    (a.ty o).withParams ((a.ty o).params.map fun p => (p.1, id p.2)) = a.ty o := by
    cases a.ground_ty o with
    | mk _ _ hsame _ => simpa using hsame
  have hparams : ∀ q ∈ (a.ty o).params, (choose q.2).exec s = (.ok (id q.2), s) := by
    induction a generalizing o with
    | cont k p e ih =>
      have he := h.exec_choose_of_not_alt (e.ground_ty p) (e.isAlt_ty p) (ih p)
      rw [hself] at he
      simpa [Shape.params_ty] using he
    | _ => simp [Shape.params_ty]
  rw [h.exec_choose_of_not_alt (a.ground_ty o) (a.isAlt_ty o) hparams, hself]

/-! ## Common kinds -/

lemma family_basic_and : ∀ b c : Basic, b ≠ c →
    (let common : Kind := ⟨b.kind.family &&& c.kind.family, false, 0⟩
     if common.isVoid || !common.isKnown || common.isAny then none else some common) =
       (b.join c).map Basic.kind := by
  decide

lemma family_access_and : ∀ k l : Access,
    (let common : Kind := ⟨k.kind.family &&& l.kind.family, false, 0⟩
     if common.bits == 0 then none else some common) = (k.join l).map Access.kind := by
  decide

/-- The outcome of a search is the type of a shape, or that there is no common type. -/
def Joined (r : Except TyError Ty) (o : Bool) : Option Shape → Prop
  | some c => r = .ok (c.ty o)
  | none => ∃ x y, r = .error (.noCommonType x y)

lemma joined_basic {b c : Basic} {d e : Option (String × List (String × Int64))}
    (h : ¬ (b = c ∧ d = e)) :
    Joined (join ((Shape.basic b d).ty false) ((Shape.basic c e).ty false)) false
    ((Shape.basic b d).join (.basic c e)) := by
  have hplain (b : Basic) : (Shape.basic b none).ty false = .plain b.kind := by cases b <;> rfl
  rw [Shape.join, if_neg h]
  unfold join
  simp only [Shape.kind_ty_basic, Basic.family_beq, Basic.isSpec_kind, decide_eq_true_eq]
  by_cases hbc : b = c
  · subst hbc
    have hbare : b.kind.bare = b.kind := by cases b <;> rfl
    simp [Joined, Basic.join, hplain, hbare]
  · have hand := family_basic_and b c hbc
    dsimp only at hand
    rw [if_neg hbc]
    cases hjoin : b.join c with
    | none =>
      rw [hjoin] at hand
      split at hand
      · next hnone => rw [if_pos hnone]; exact ⟨_, _, rfl⟩
      · cases hand
    | some u =>
      rw [hjoin] at hand
      split at hand
      · cases hand
      · next hsome =>
        have hu : (⟨b.kind.family &&& c.kind.family, false, 0⟩ : Kind) = u.kind :=
          some_injective _ hand
        rw [if_neg hsome, hu]
        -- One of the two is the common kind itself only if it has no name.
        have hfamily (x : Basic) (f : Option (String × List (String × Int64)))
            (hx : (u.kind.family == x.kind.family && !((Shape.basic x f).ty false).isDetailed) =
            true) : (Shape.basic x f).ty false = .plain u.kind := by
          rw [and_eq_true, Basic.family_beq, decide_eq_true_eq] at hx
          obtain ⟨rfl, hplain'⟩ := hx
          cases f with
          | none => exact hplain u
          | some f => cases hplain'
        simp only [Joined, map_some, hplain]
        split
        · next hb => rw [hfamily b d hb]
        · split
          · next hc => rw [hfamily c e hc]
          · rfl

/-! ## Unifying -/

lemma Sound.exec_unify_chosen (h : s.Sound) (ht : t.Ground) (hu : u.Ground)
    (hne : equal t u = false) : (unify t u).exec s =
    (do unifyPlain unify choose (← choose t) (← choose u) : Solve Ty).exec s := by
  have hbound {t : Ty} (ht : t.Ground) : s.isBound t = false := by
    simp [isBound, varId?, ht.isVar_eq]
  rw [h.exec_unify, unifyWith, exec_get_bind]
  simp only [h.apply_ground ht, h.apply_ground hu, hne, ht.isVar_eq, hu.isVar_eq, hbound ht,
    hbound hu, false_eq_true, ↓reduceIte, bind_pure]

lemma Sound.exec_unify_ground (h : s.Sound) (ht : t.Ground) (hu : u.Ground)
    (htc : (choose t).exec s = (.ok t, s))
    (huc : (choose u).exec s = (.ok u, s)) (hne : equal t u = false) :
    (unify t u).exec s = (unifyPlain unify choose t u).exec s := by
  rw [h.exec_unify_chosen ht hu hne, exec_bind, htc]
  dsimp only
  rw [exec_bind, huc]

lemma Sound.exec_unify_of_ne (h : s.Sound) (hne : equal (a.ty o) (b.ty p) = false) :
    (unify (a.ty o) (b.ty p)).exec s = (unifyPlain unify choose (a.ty o) (b.ty p)).exec s :=
  h.exec_unify_ground (a.ground_ty o) (b.ground_ty p) (h.exec_choose_ty a o)
    (h.exec_choose_ty b p) hne

lemma exec_unifyPlain_of_ne (hne : a ≠ b) (ha : a ≠ .any) (hb : b ≠ .any) :
    (unifyPlain unify choose (a.ty o) (b.ty p)).exec s =
      (if (a.ty false).kind.isCont && (b.ty false).kind.isCont then do
        let res ← unifyContainers unify choose (a.ty false) (b.ty false)
        return res.optIf (o || p) else do
        let res ← ofExcept (join (a.ty false) (b.ty false))
        return res.optIf (o || p)).exec s := by
  have hmarks (a : Shape) := Kind.not_marked (a.isCtx_ty false)
  unfold unifyPlain
  simp only [Shape.equal_ty_of_ne hne, Shape.isOpt_ty, Shape.deopt_ty, Shape.isAny_ty_of_ne ha,
    Shape.isAny_ty_of_ne hb, hmarks, Shape.isCtx_ty, false_eq_true, ↓reduceIte, Bool.or_self]

lemma exec_unifyContainers {k l : Access} (ha : a.access? = some k) (hb : b.access? = some l) :
    (unifyContainers unify choose (a.ty false) (b.ty false)).exec s = match k.join l with
      | none => (.error (.noCommonType (a.ty false) (b.ty false)), s)
      | some m => (match (a.ty false).elem?, (b.ty false).elem? with
          | some ea, some eb => do ofExcept (cont m.kind (← unify ea eb))
          | some e, none => ofExcept (cont m.kind e)
          | none, some e => ofExcept (cont m.kind e)
          | none, none => return .plain m.kind : Solve Ty).exec s := by
  have hand := family_access_and k l
  dsimp only at hand
  unfold unifyContainers
  simp only [Shape.family_ty ha, Shape.family_ty hb, elemOf, Shape.isObj_ty]
  cases hjoin : k.join l with
  | none =>
    rw [hjoin] at hand
    split at hand
    · next hnone => rw [if_pos hnone]; rfl
    · cases hand
  | some m =>
    rw [hjoin] at hand
    split at hand
    · cases hand
    · next hsome =>
      have hm : (⟨k.kind.family &&& l.kind.family, false, 0⟩ : Kind) = m.kind :=
        some_injective _ hand
      rw [if_neg hsome, hm, m.isObj_kind]
      rfl

lemma cont_ty {m : Access} (h : a.depth + 1 ≤ Kind.maxDepth) (o : Bool) :
    cont m.kind (a.ty o) = .ok ((Shape.cont m o a).ty false) := by
  have hdepth : (around m.kind (a.ty o)).kind.depth = a.depth + 1 :=
    Shape.depth_ty (a := .cont m o a) (h.trans (by decide)) false
  rw [cont, if_neg (by rw [hdepth]; omega)]
  rfl

/-- The search binds nothing and gives the type of a shape, or there is no common type. Over types
of a depth `n` that is not admitted it may also fail. -/
def Joins (m : Solve Ty) (s : Subst) (n : Nat) (o : Bool) (found : Option Shape) : Prop :=
  ∃ r, m.exec s = (r, s) ∧ (Joined r o found ∨ Kind.maxDepth < n ∧ ∃ e, r = .error e)

lemma Joins.optIf (h : Joins m s n o found) (p : Bool) :
    Joins (do let res ← m; return res.optIf p) s n (o || p) found := by
  obtain ⟨r, hm, hr | ⟨hdeep, e, rfl⟩⟩ := h <;> unfold Joins <;> rw [exec_bind, hm]
  · cases found with
    | none =>
      obtain ⟨x, y, rfl⟩ := hr
      exact ⟨_, rfl, .inl ⟨x, y, rfl⟩⟩
    | some c =>
      subst hr
      exact ⟨_, rfl, .inl (congrArg Except.ok (Shape.optIf_ty c o p))⟩
  · exact ⟨_, rfl, .inr ⟨hdeep, e, rfl⟩⟩

lemma joins_unifyContainers (ha : a.access?.isSome) (hb : b.access?.isSome) (hda : a.depth ≤ n)
    (hdb : b.depth ≤ n) (helem : ∀ k p e l q f, a = .cont k p e → b = .cont l q f →
    Joins (unify (e.ty p) (f.ty q)) s n (p || q) (e.join f)) :
    Joins (unifyContainers unify choose (a.ty false) (b.ty false)) s n false (a.join b) := by
  obtain ⟨k, hk⟩ := isSome_iff_exists.1 ha
  obtain ⟨l, hl⟩ := isSome_iff_exists.1 hb
  have hsingle (m : Access) (p : Bool) (e : Shape) (he : e.depth + 1 ≤ n) :
      Joins (ofExcept (cont m.kind (e.ty p))) s n false (some (.cont m p e)) := by
    refine ⟨_, exec_ofExcept _ s, ?_⟩
    by_cases hadmitted : e.depth + 1 ≤ Kind.maxDepth
    · exact .inl (cont_ty hadmitted p)
    · rw [cont]
      split_ifs
      · exact .inr ⟨by omega, _, rfl⟩
      · exact .inl rfl
  unfold Joins
  rw [exec_unifyContainers hk hl]
  cases a with
  | any => cases hk
  | basic => cases hk
  | bare k =>
    cases hk
    cases b with
    | any => cases hl
    | basic => cases hl
    | bare l =>
      cases hl
      rw [Shape.join]
      simp only [Shape.elem?_ty]
      cases k.join l with
      | none => exact ⟨_, rfl, .inl ⟨_, _, rfl⟩⟩
      | some m =>
        have hbare : plain m.kind = (Shape.bare m).ty false := by cases m <;> rfl
        exact ⟨.ok (.plain m.kind), rfl, .inl (congrArg Except.ok hbare)⟩
    | cont l q f =>
      cases hl
      rw [Shape.join]
      simp only [Shape.elem?_ty]
      cases k.join l with
      | none => exact ⟨_, rfl, .inl ⟨_, _, rfl⟩⟩
      | some m => exact hsingle m q f hdb
  | cont k p e =>
    cases hk
    cases b with
    | any => cases hl
    | basic => cases hl
    | bare l =>
      cases hl
      rw [Shape.join]
      simp only [Shape.elem?_ty]
      cases k.join l with
      | none => exact ⟨_, rfl, .inl ⟨_, _, rfl⟩⟩
      | some m => exact hsingle m p e hda
    | cont l q f =>
      cases hl
      obtain ⟨r, hr, hjoined⟩ := helem k p e l q f rfl rfl
      rw [Shape.join]
      simp only [Shape.elem?_ty]
      cases k.join l with
      | none => exact ⟨_, rfl, .inl ⟨_, _, rfl⟩⟩
      | some m =>
        simp only [bind_some]
        rw [exec_bind, hr]
        obtain hjoined | ⟨hdeep, x, rfl⟩ := hjoined
        · cases hef : e.join f with
          | none =>
            rw [hef] at hjoined
            obtain ⟨x, y, rfl⟩ := hjoined
            exact ⟨_, rfl, .inl ⟨x, y, rfl⟩⟩
          | some c =>
            rw [hef] at hjoined
            subst hjoined
            have hdepth := Shape.depth_join hef
            simp only [Shape.depth] at hda hdb
            exact hsingle m (p || q) c (by omega)
        · exact ⟨_, rfl, .inr ⟨hdeep, x, rfl⟩⟩

lemma joined_apart {c : Basic} {d : Option (String × List (String × Int64))} {k : Access}
    (hb : b.access? = some k) : Joined (join ((Shape.basic c d).ty false) (b.ty false)) false none ∧
    Joined (join (b.ty false) ((Shape.basic c d).ty false)) false none := by
  have hvoid : (⟨0, false, 0⟩ : Kind).isVoid := by decide
  obtain ⟨hne, hne', hand, hand'⟩ := Basic.family_access c k
  unfold join
  simp only [Shape.kind_ty_basic, Shape.family_ty hb, hne, hne', hand, hand']
  exact ⟨⟨_, _, rfl⟩, _, _, rfl⟩

lemma joins_ofExcept {r : Except TyError Ty} (h : Joined r o found) :
    Joins (ofExcept r) s n o found :=
  ⟨r, exec_ofExcept r s, .inl h⟩

lemma joins_unifyPlain_of_ne (hne : a ≠ b) (ha : a ≠ .any) (hb : b ≠ .any) (hda : a.depth ≤ n)
    (hdb : b.depth ≤ n) (helem : ∀ k p e l q f, a = .cont k p e → b = .cont l q f →
    Joins (unify (e.ty p) (f.ty q)) s n (p || q) (e.join f)) :
    Joins (unifyPlain unify choose (a.ty o) (b.ty p)) s n (o || p) (a.join b) := by
  unfold Joins
  rw [exec_unifyPlain_of_ne hne ha hb, Shape.isCont_ty, Shape.isCont_ty]
  by_cases hcont : a.access?.isSome ∧ b.access?.isSome
  · rw [if_pos (by simpa using hcont)]
    exact (joins_unifyContainers hcont.1 hcont.2 hda hdb helem).optIf (o || p)
  · rw [if_neg (by simpa using hcont)]
    refine Joins.optIf (o := false) (joins_ofExcept ?_) (o || p)
    cases a with
    | any => exact absurd rfl ha
    | basic c d =>
      cases b with
      | any => exact absurd rfl hb
      | basic c' e => exact joined_basic (by rintro ⟨rfl, rfl⟩; exact hne rfl)
      | bare l => exact (joined_apart rfl).1
      | cont l q f => exact (joined_apart rfl).1
    | bare k =>
      cases b with
      | any => exact absurd rfl hb
      | basic c e => exact (joined_apart rfl).2
      | bare l => exact absurd ⟨rfl, rfl⟩ hcont
      | cont l q f => exact absurd ⟨rfl, rfl⟩ hcont
    | cont k q e =>
      cases b with
      | any => exact absurd rfl hb
      | basic c e => exact (joined_apart rfl).2
      | bare l => exact absurd ⟨rfl, rfl⟩ hcont
      | cont l q f => exact absurd ⟨rfl, rfl⟩ hcont

lemma joins_unifyPlain_same (hop : o ≠ p) :
    Joins (unifyPlain unify choose (a.ty o) (a.ty p)) s n (o || p) (some a) := by
  have hne : equal (a.ty o) (a.ty p) = false := by
    rw [eq_false_iff, Ne, (a.ground_ty o).equal_iff (a.ground_ty p)]
    exact fun heq => hop (Shape.ty_injective heq).1
  unfold unifyPlain
  simp only [hne, Shape.isOpt_ty, Shape.deopt_ty, equal_self, Shape.optIf_ty]
  exact ⟨_, rfl, .inl rfl⟩

lemma joins_unifyPlain_any (ha : a ≠ .any) (hany : b = .any) :
    Joins (unifyPlain unify choose (a.ty o) (b.ty p)) s n (o || p) (some a) ∧
    Joins (unifyPlain unify choose (b.ty o) (a.ty p)) s n (o || p) (some a) := by
  subst hany
  have hequal (o p : Bool) := Shape.equal_ty_of_ne ha o p
  have hequal' (o p : Bool) := Shape.equal_ty_of_ne (Ne.symm ha) o p
  unfold unifyPlain
  simp only [hequal, hequal', Shape.isOpt_ty, Shape.deopt_ty, Shape.isAny_ty_of_ne ha,
    Shape.optIf_ty]
  exact ⟨⟨_, rfl, .inl rfl⟩, _, rfl, .inl rfl⟩

lemma Sound.joins_unify (h : s.Sound) (ha : a.depth ≤ n) (hb : b.depth ≤ n) (o p : Bool) :
    Joins (unify (a.ty o) (b.ty p)) s n (o || p) (a.join b) := by
  -- The elements of `a` carry the induction; all else is the same for every shape.
  have hstep {a b : Shape} {o p : Bool} (ha : a.depth ≤ n) (hb : b.depth ≤ n)
      (helem : ∀ k p e l q f, a = .cont k p e → b = .cont l q f →
      Joins (unify (e.ty p) (f.ty q)) s n (p || q) (e.join f)) :
      Joins (unify (a.ty o) (b.ty p)) s n (o || p) (a.join b) := by
    by_cases hsame : a = b ∧ o = p
    · obtain ⟨rfl, rfl⟩ := hsame
      refine ⟨.ok (a.ty o), ?_, .inl (by rw [Shape.join_self]; simp [Joined])⟩
      rw [h.exec_unify, unifyWith, exec_get_bind]
      simp only [equal_self, h.apply_ground (a.ground_ty o)]
      rfl
    · have hne : equal (a.ty o) (b.ty p) = false := by
        rw [eq_false_iff, Ne, (a.ground_ty o).equal_iff (b.ground_ty p)]
        exact fun heq => hsame (Shape.ty_injective heq).symm
      unfold Joins
      rw [h.exec_unify_of_ne hne]
      by_cases hab : a = b
      · subst hab
        rw [Shape.join_self]
        exact joins_unifyPlain_same fun hop => hsame ⟨rfl, hop⟩
      · by_cases hany : a = .any
        · subst hany
          exact (joins_unifyPlain_any (Ne.symm hab) rfl).2
        · by_cases hany' : b = .any
          · subst hany'
            rw [Shape.join_of_le (Shape.any_le a)]
            exact (joins_unifyPlain_any hany rfl).1
          · exact joins_unifyPlain_of_ne hab hany hany' ha hb helem
  induction a generalizing b o p with
  | cont k q e ih =>
    refine hstep ha hb fun k' q' e' l r f ha' hb' => ?_
    obtain ⟨rfl, rfl, rfl⟩ := Shape.cont.inj ha'
    subst hb'
    simp only [Shape.depth] at ha hb
    exact ih (by omega) (by omega) q r
  | _ => exact hstep ha hb (by simp)

lemma Sound.joins_unifyPlain (h : s.Sound) (ha : a.depth ≤ n) (hb : b.depth ≤ n) (o p : Bool) :
    Joins (unifyPlain unify choose (a.ty o) (b.ty p)) s n (o || p) (a.join b) := by
  cases hequal : equal (a.ty o) (b.ty p) with
  | true =>
    obtain ⟨rfl, rfl⟩ := Shape.ty_injective (((a.ground_ty o).equal_iff (b.ground_ty p)).1 hequal)
    unfold unifyPlain
    simp only [hequal, Shape.join_self, Bool.or_self]
    exact ⟨_, rfl, .inl rfl⟩
  | false =>
    have hjoins := h.joins_unify ha hb o p
    unfold Joins at hjoins ⊢
    rwa [h.exec_unify_of_ne hequal] at hjoins

/-! ## Searches that bind nothing -/

/-- The search binds nothing and gives what is found, or there is no common type. -/
def Gives {α : Type} (m : Solve α) (s : Subst) : Option α → Prop
  | some a => m.exec s = (.ok a, s)
  | none => ∃ x y, m.exec s = (.error (.noCommonType x y), s)

lemma Joins.gives {o : Bool} (h : Joins m s Kind.maxDepth o found) :
    Gives m s (found.map (Shape.ty o)) := by
  obtain ⟨r, hm, hr | ⟨hdeep, -⟩⟩ := h
  swap
  · exact absurd hdeep (lt_irrefl _)
  cases found with
  | none =>
    obtain ⟨x, y, rfl⟩ := hr
    exact ⟨x, y, hm⟩
  | some c =>
    cases hr
    exact hm

lemma Gives.bind {α β : Type} {m : Solve α} {k : α → Solve β} {found : Option α} {g : α → Option β}
    (hm : Gives m s found)
    (hk : ∀ a, found = some a → Gives (k a) s (g a)) : Gives (m >>= k) s (found.bind g) := by
  cases found with
  | none =>
    obtain ⟨x, y, hm⟩ := hm
    exact ⟨x, y, by rw [exec_bind, hm]⟩
  | some a =>
    have hexec : (m >>= k).exec s = (k a).exec s := by
      rw [exec_bind, show m.exec s = (.ok a, s) from hm]
    have hk := hk a rfl
    unfold Gives at hk ⊢
    rwa [hexec]

lemma Gives.map {α β : Type} {m : Solve α} {found : Option α} (f : α → β) (hm : Gives m s found) :
    Gives (do let a ← m; return f a) s (found.map f) := by
  rw [map_eq_bind]
  exact hm.bind fun a _ => rfl

lemma Sound.gives_unify (h : s.Sound) {x y : Bool × Shape} (hx : x.2.depth ≤ Kind.maxDepth)
    (hy : y.2.depth ≤ Kind.maxDepth) :
    Gives (unify (Shape.typed x) (Shape.typed y)) s ((Shape.merge x y).map Shape.typed) := by
  rw [Shape.merge, Option.map_map]
  exact (h.joins_unify hx hy x.1 y.1).gives

lemma Sound.gives_unifyPlain (h : s.Sound) {x y : Bool × Shape} (hx : x.2.depth ≤ Kind.maxDepth)
    (hy : y.2.depth ≤ Kind.maxDepth) :
    Gives (unifyPlain unify choose (Shape.typed x) (Shape.typed y)) s
    ((Shape.merge x y).map Shape.typed) := by
  rw [Shape.merge, Option.map_map]
  exact (h.joins_unifyPlain hx hy x.1 y.1).gives

end Resolvent.Subst
