import Resolvent.Proofs.Subst.Alternatives
import Resolvent.Proofs.Ty.Record

/-!
# Choosing among objects

Objects with fields of simple types are joined by their common fields.
-/

namespace Resolvent

open List Option
open Shape (typed merge)

namespace Record

variable {r q p : Record}

lemma kind_ty (r : Record) : r.ty.kind = Kind.obj.withOptional r.optional := by
  unfold ty
  split <;> rfl

lemma params_ty (r : Record) : r.ty.params = r.fields.map fun f => (f.1, typed f.2) := by
  unfold ty fields
  cases r.detail <;> rfl

lemma ground_ty (r : Record) : r.ty.Ground := by
  have hctx : Kind.obj.isCtx = false := by decide
  have helem : Kind.obj.isElemCont = false := by decide
  refine .of_not_isCtx ?_ (Ty.withParams_params ?_) ?_
  · rw [kind_ty]
    exact hctx
  · rw [kind_ty]
    exact helem
  · rw [params_ty, List.forall_mem_map]
    exact fun f _ => Shape.ground_typed f.2

@[simp] lemma isAlt_ty (r : Record) : r.ty.kind.isAlt = false := by
  rw [kind_ty]
  rfl

lemma isOpt_ty (r : Record) : r.ty.isOpt = r.optional := by
  rw [Ty.isOpt, kind_ty]
  rfl

lemma deopt_ty (r : Record) : r.ty.deopt = ty ⟨false, r.detail⟩ := by
  unfold ty
  cases r.detail <;> rfl

lemma optIf_ty (r : Record) (o : Bool) : r.ty.optIf o = ty ⟨r.optional || o, r.detail⟩ := by
  cases o with
  | false => simp [Ty.optIf, ty]
  | true =>
    rw [Bool.or_true]
    unfold ty
    cases r.detail <;> rfl

lemma isObj_ty (r : Record) : r.ty.kind.isObj := by
  rw [kind_ty]
  cases r.optional <;> decide

lemma field?_ty (r : Record) (k : String) :
    (r.ty.field? k).map (·.2) = (r.get? (Param.key k)).map typed := by
  rw [Ty.field?, params_ty, find?_map, Option.map_map, get?, lookup, Option.map_map]
  rfl

lemma ty_injective : Function.Injective ty := by
  intro r q h
  have hopt : r.optional = q.optional := by rw [← isOpt_ty, h, isOpt_ty]
  obtain ⟨o, d⟩ := r
  obtain ⟨o', d'⟩ := q
  cases hopt
  cases d with
  | none =>
    cases d' with
    | none => rfl
    | some d' => cases h
  | some d =>
    cases d' with
    | none => cases h
    | some d' =>
      have hfields : Function.Injective fun f : String × (Bool × Shape) => (f.1, typed f.2) :=
        Prod.map_injective.2 ⟨Function.injective_id, Shape.typed_injective⟩
      obtain ⟨-, hname, hparams, -⟩ := Ty.detailed.inj h
      rw [Prod.ext hname (map_injective_iff.2 hfields hparams)]

/-- What is left of an object type once the alternatives in its fields are resolved. -/
def of (f : Ty → Bool × Shape) : Ty → Record
  | .plain k => ⟨k.optional, none⟩
  | .detailed k name fields _ => ⟨k.optional, some (name, fields.map fun p => (p.1, f p.2))⟩

end Record

namespace Ty

/-- Object types with simple field types. The fields have different keys, and no name has more than
one optional mark. -/
inductive Object : Ty → Prop
  | plain (o : Bool) : Object (.plain (Kind.obj.withOptional o))
  | detailed (o : Bool) (name : String)
      {fields : List Param} : (fields.map fun p => Param.key p.1).Nodup →
    (∀ p ∈ fields, Param.key (Param.key p.1) = Param.key p.1) →
    (∀ p ∈ fields, p.2.Simple true Kind.maxDepth) →
    Object (.detailed (Kind.obj.withOptional o) name fields [])

namespace Object

variable {t : Ty}

lemma simple (h : t.Object) : ∀ p ∈ t.params, p.2.Simple true Kind.maxDepth := by
  cases h with
  | plain o => exact nofun
  | detailed o name _ _ hsimple => exact hsimple

lemma isAlt_eq (h : t.Object) : t.kind.isAlt = false := by cases h <;> rfl

lemma ground (h : t.Object) : t.Ground := by
  have hobj : Kind.obj.isCtx = false ∧ Kind.obj.isElemCont = false := by decide
  have hkind : t.kind.isCtx = false ∧ t.kind.isElemCont = false := by cases h <;> exact hobj
  exact .of_not_isCtx hkind.1 (withParams_params hkind.2) fun p hp => (h.simple p hp).ground

lemma get?_of (h : t.Object) {f : Ty → Bool × Shape} (k : String) :
    (Record.of f t).get? (Param.key k) = (t.field? k).map fun p => f p.2 := by
  cases h with
  | plain o => rfl
  | detailed o name =>
    simp only [Record.of, Record.get?, Record.lookup, Record.fields, map_some, getD_some, find?_map,
      Option.map_map, field?, params]
    rfl

end Object

end Ty

namespace Subst

open Solve Ty

variable {s : Subst} {r q p : Record} {rs qs : List Record}

lemma Sound.exec_choose_record (h : s.Sound) (r : Record) :
    (choose r.ty).exec s = (.ok r.ty, s) := by
  have hparams : ∀ p ∈ r.ty.params, (choose p.2).exec s = (.ok (id p.2), s) := by
    rw [Record.params_ty, List.forall_mem_map]
    exact fun f _ => h.exec_choose_ty f.2.2 f.2.1
  rw [h.exec_choose_of_not_alt r.ground_ty r.isAlt_ty hparams]
  cases r.ground_ty with
  | mk _ _ hsame _ => simpa using hsame

/-! ## Unifying objects -/

lemma Sound.gives_unifyFields (h : s.Sound) {fs gs : List (String × (Bool × Shape))} {b : Ty}
    (hb : b.params = gs.map fun g => (g.1, typed g.2)) (hfs : ∀ f ∈ fs, f.2.2.depth ≤ Kind.maxDepth)
    (hgs : ∀ g ∈ gs, g.2.2.depth ≤ Kind.maxDepth)
    (hkeys : ∀ f ∈ fs, Param.key (Param.key f.1) = Param.key f.1) :
    Gives (unifyFields unify b (fs.map fun f => (f.1, typed f.2))) s
      ((Record.joinFields gs fs).map fun hs => hs.map fun f => (f.1, typed f.2)) := by
  induction fs with
  | nil => rfl
  | cons f fs ih =>
    obtain ⟨n, x⟩ := f
    have ih := ih (fun e he => hfs e (by simp [he])) fun e he => hkeys e (by simp [he])
    have hfield : b.field? (Param.key n) = (Record.lookup gs (Param.key n)).map fun g =>
      (g.1, typed g.2) := by
      have hkey : Param.key (Param.key n) = Param.key n := hkeys (n, x) (by simp)
      rw [field?, hb, hkey, Record.lookup, find?_map]
      rfl
    rw [map_cons, unifyFields, hfield, Record.joinFields]
    cases hg : Record.lookup gs (Param.key n) with
    | none => exact ih
    | some g =>
      obtain ⟨m, y⟩ := g
      have hy : y.2.depth ≤ Kind.maxDepth := hgs (m, y) (mem_of_find?_eq_some hg)
      have hunify := h.gives_unify (hfs (n, x) (by simp)) hy
      have hboth := hunify.bind (g := fun t => ((Record.joinFields gs fs).map fun hs =>
        (if Param.isOpt n then m else n, t) :: hs.map fun f => (f.1, typed f.2))) fun t _ => by
          have hrest := ih.map fun rest => (if Param.isOpt n then m else n, t) :: rest
          rwa [Option.map_map] at hrest
      convert hboth using 1
      · rfl
      · dsimp only
        cases merge x y <;> cases Record.joinFields gs fs <;> rfl

lemma Sound.gives_unifyObjects (h : s.Sound)
    {d d' : Option (String × List (String × (Bool × Shape)))}
    (hr : Record.Proper ⟨false, d⟩) (hq : Record.Proper ⟨false, d'⟩) :
    Gives (unifyObjects unify (Record.ty ⟨false, d⟩) (Record.ty ⟨false, d'⟩)) s
      ((Record.join ⟨false, d⟩ ⟨false, d'⟩).map Record.ty) := by
  cases d with
  | none => rfl
  | some d =>
    cases d' with
    | none => rfl
    | some d' =>
      obtain ⟨name, fs⟩ := d
      obtain ⟨name', gs⟩ := d'
      have hfields := h.gives_unifyFields (Record.params_ty ⟨false, some (name', gs)⟩) hr.depth
        hq.depth hr.keys
      have hobject := hfields.map (obj (if name = name' then name else ""))
      rw [Option.map_map] at hobject
      rw [Record.join, Option.map_map]
      exact hobject

lemma Sound.gives_unifyPlain_record (h : s.Sound) (hr : r.Proper) (hq : q.Proper) :
    Gives (unifyPlain unify choose r.ty q.ty) s ((r.join q).map Record.ty) := by
  obtain ⟨o, d⟩ := r
  obtain ⟨o', d'⟩ := q
  have hequal {r q : Record} (hne : r ≠ q) : equal r.ty q.ty = false := by
    rw [Bool.eq_false_iff, Ne, r.ground_ty.equal_iff q.ground_ty]
    exact fun heq => hne (Record.ty_injective heq)
  unfold unifyPlain
  by_cases hsame : (⟨o, d⟩ : Record) = ⟨o', d'⟩
  · cases hsame
    simp only [Record.join_self hr, equal_self, ↓reduceIte]
    rfl
  · simp only [hequal hsame, Bool.false_eq_true, ↓reduceIte, Record.isOpt_ty, Record.deopt_ty]
    by_cases hd : d = d'
    · subst hd
      rw [Record.join_same hr]
      simp only [equal_self, ↓reduceIte, Record.optIf_ty, Bool.false_or]
      rfl
    · have hne : (⟨false, d⟩ : Record) ≠ ⟨false, d'⟩ := fun heq => hd (Record.mk.inj heq).2
      have hkind : (Kind.obj.withOptional false).isAny = false ∧
        (Kind.obj.withOptional false).isCtx = false ∧ (Kind.obj.withOptional false).isCont ∧
          (⟨(Kind.obj.withOptional false).family &&& (Kind.obj.withOptional false).family, false,
          0⟩ : Kind).isObj ∧
          ((⟨(Kind.obj.withOptional false).family &&& (Kind.obj.withOptional false).family, false,
          0⟩ : Kind).bits == 0) = false := by
        decide
      have hmarks := Kind.not_marked hkind.2.1
      simp only [hequal hne, isAny, Record.kind_ty, hkind, hmarks, unifyContainers,
        Bool.false_eq_true, ↓reduceIte, Bool.or_self, Bool.and_self]
      rw [Record.join_optional, Option.map_map]
      have hr' : Record.Proper ⟨false, d⟩ := ⟨hr.distinct, hr.keys, hr.depth⟩
      have hq' : Record.Proper ⟨false, d'⟩ := ⟨hq.distinct, hq.keys, hq.depth⟩
      have hobjects := (h.gives_unifyObjects hr' hq').map fun t => t.optIf (o || o')
      rw [Option.map_map] at hobjects
      convert hobjects using 1
      refine Option.map_congr fun p hp => ?_
      simp [Record.optIf_ty, Record.optional_join hp]

lemma Sound.gives_unify_record (h : s.Sound) (hr : r.Proper) (hq : q.Proper) :
    Gives (unify r.ty q.ty) s ((r.join q).map Record.ty) := by
  cases hequal : equal r.ty q.ty with
  | true =>
    obtain rfl : r = q := Record.ty_injective ((r.ground_ty.equal_iff q.ground_ty).1 hequal)
    rw [Record.join_self hr]
    unfold Gives
    simp only [map_some]
    rw [h.exec_unify, unifyWith, exec_get_bind]
    simp only [equal_self, ↓reduceIte, h.apply_ground r.ground_ty]
    rfl
  | false =>
    have hplain := h.gives_unifyPlain_record hr hq
    unfold Gives at hplain ⊢
    rwa [h.exec_unify_ground r.ground_ty q.ground_ty (h.exec_choose_record r)
      (h.exec_choose_record q) hequal]

/-! ## Choosing -/

def Resolves (f : Ty → Bool × Shape) : Prop :=
  ∀ t : Ty, t.Simple true Kind.maxDepth → (f t).2.depth ≤ Kind.maxDepth ∧ ∀ s : Subst, s.Sound →
    (choose t).exec s = (.ok (typed (f t)), s)

lemma exists_resolves : ∃ f, Resolves f := by
  have hex : ∀ t : Ty, t.Simple true Kind.maxDepth → ∃ x : Bool × Shape, x.2.depth ≤ Kind.maxDepth ∧
      ∀ s : Subst, s.Sound → (choose t).exec s = (.ok (typed x), s) :=
      fun t ht => exists_exec_choose ht le_rfl
  choose! f hf using hex
  exact ⟨f, hf⟩

section

variable {f : Ty → Bool × Shape} {t : Ty} {ts us : List Ty}

lemma Resolves.proper (hf : Resolves f) (ht : t.Object) : (Record.of f t).Proper := by
  cases ht with
  | plain o => exact ⟨nodup_nil, nofun, nofun⟩
  | detailed o name hdistinct hkeys hsimple =>
    refine ⟨?_, List.forall_mem_map.2 hkeys, List.forall_mem_map.2 fun p hp =>
      (hf p.2 (hsimple p hp)).1⟩
    simpa [Record.of, Record.fields, Function.comp_def] using hdistinct

lemma Resolves.exec_choose (hf : Resolves f) (h : s.Sound) (ht : t.Object) :
    (choose t).exec s = (.ok (Record.of f t).ty, s) := by
  have hparams : ∀ p ∈ t.params, (choose p.2).exec s = (.ok (typed (f p.2)), s) :=
    fun p hp => (hf p.2 (ht.simple p hp)).2 s h
  rw [h.exec_choose_of_not_alt (g := fun u => typed (f u)) ht.ground ht.isAlt_eq hparams]
  cases ht with
  | plain o => rfl
  | @detailed o name fields =>
    have helem : (Kind.obj.withOptional o).isElemCont = false := by cases o <;> decide
    cases fields with
    | nil => rfl
    | cons p fields =>
      simp only [params, withParams, map_cons, helem, Bool.false_eq_true, ↓reduceIte, Record.of,
        Record.ty, List.map_map]
      rfl

/-- Conflicts are evident in any order: fields whose types have no common type are fields of all
objects. -/
def Evident (ts : List Ty) : Prop :=
  ∀ k, (∃ t ∈ ts, t.field? k = none) → ∃ u : Shape, ∀ t ∈ ts, ∀ p, t.field? k = some p →
    ∃ x : Bool × Shape, (choose p.2).exec {} = (.ok (typed x), {}) ∧ x.2 ≤ u

lemma Evident.records (h : Evident ts) (hf : Resolves f) (hts : ∀ t ∈ ts, t.Object) :
    Record.Evident (ts.map (Record.of f)) := by
  intro k hnone
  by_cases hk : Param.key k = k
  · have hget (t : Ty) (ht : t ∈ ts) : (Record.of f t).get? k = (t.field? k).map fun p =>
      f p.2 := by
      rw [← (hts t ht).get?_of, hk]
    obtain ⟨r, hr, hnone⟩ := hnone
    obtain ⟨t, ht, rfl⟩ := List.mem_map.1 hr
    rw [hget t ht, map_eq_none_iff] at hnone
    obtain ⟨u, hu⟩ := h k ⟨t, ht, hnone⟩
    refine ⟨u, List.forall_mem_map.2 fun t ht y hy => ?_⟩
    rw [hget t ht] at hy
    obtain ⟨p, hp, rfl⟩ := map_eq_some_iff.1 hy
    obtain ⟨x, hx, hle⟩ := hu t ht p hp
    have hchoose := (hf p.2 ((hts t ht).simple p (mem_of_find?_eq_some hp))).2 {} .empty
    rw [hchoose] at hx
    obtain rfl : f p.2 = x := Shape.typed_injective (Except.ok.inj (Prod.mk.inj hx).1)
    exact hle
  · -- No field has such a key.
    refine ⟨.any, List.forall_mem_map.2 fun t ht y hy => absurd ?_ hk⟩
    obtain ⟨e, he, -⟩ := map_eq_some_iff.1 hy
    rw [← Record.key_of_lookup he]
    exact (hf.proper (hts t ht)).keys e (mem_of_find?_eq_some he)

lemma Resolves.exec_choose_alt (hf : Resolves f) (h : s.Sound) (hts : ∀ u ∈ t :: us, u.Object)
    (hflat : flat ts = t :: us) : ∃ o, (choose (.alt ts)).exec s =
    (.ok (orAny o (((Record.of f t).joinAll (us.map (Record.of f))).map Record.ty)), s) := by
  have ht : t.Object := hts t (by simp)
  rw [alt_eq]
  split
  · next u hsingle =>
    rw [hflat, cons.injEq] at hsingle
    obtain ⟨rfl, rfl⟩ := hsingle
    exact ⟨false, hf.exec_choose h ht⟩
  · have hground : ∀ u ∈ flat ts, u.Ground := by
      rw [hflat]
      exact fun u hu => (hts u hu).ground
    refine ⟨false || (flat ts).any (·.isOpt),
      (h.exec_choose_alternative (p := false) hground).trans ?_⟩
    generalize (false || (flat ts).any (·.isOpt)) = optional
    rw [hflat, foldCandidates, exec_bind, hf.exec_choose h ht]
    refine exec_foldCandidates Record.Proper optional (fun _ _ hr hq => h.gives_unify_record hr hq)
      (fun _ _ _ hr hq hjoin => hr.join hq hjoin) (hf.proper ht) fun u (hu : u ∈ us) => ?_
    exact ⟨hf.proper (hts u (by simp [hu])), hf.exec_choose h (hts u (by simp [hu]))⟩

lemma mem_flat_objects (hts : ∀ t ∈ ts, t.Object) (t : Ty) : t ∈ flat ts ↔ t ∈ ts := by
  have hcandidates : ts.flatMap candidates = ts :=
    flatMap_candidates fun t ht => (hts t ht).isAlt_eq
  have hself : ∀ t ∈ ts.flatMap candidates, t.selfFree := by
    rw [hcandidates]
    exact fun t ht => (hts t ht).ground.selfFree
  rw [(flat_spec hself).1, hcandidates]

/-- The order of object types does not matter if their conflicts are evident. Their fields have
different keys and types without objects, specs, variables and references, and a field whose types
have no common type is a field of all of them. Then for every order `any` is chosen, or for every
order an object with the same fields. -/
theorem choose_objects_perm (hne : ts ≠ []) (hts : ∀ t ∈ ts, t.Object) (hevident : Evident ts)
    (hperm : ts.Perm us) :
    ∃ u w, (choose (.alt ts)).exec {} = (.ok u, {}) ∧ (choose (.alt us)).exec {} = (.ok w, {}) ∧
      (u.isAny ∧ w.isAny ∨
        u.kind.isObj ∧ w.kind.isObj ∧ ∀ k, (u.field? k).map (·.2) = (w.field? k).map (·.2)) := by
  obtain ⟨f, hf⟩ := exists_resolves
  have hmem := mem_flat_objects hts
  have hflat : (flat ts).Perm (flat us) := by
    refine flat_perm (fun t ht => ?_) hperm
    rw [flatMap_candidates fun t ht => (hts t ht).isAlt_eq] at ht
    exact (hts t ht).ground
  cases hcs : flat ts with
  | nil =>
    obtain ⟨t, ht⟩ := List.exists_mem_of_ne_nil ts hne
    simpa [hcs] using (hmem t).2 ht
  | cons t cs =>
    cases hds : flat us with
    | nil => simp [hcs, hds] at hflat
    | cons t' ds =>
      rw [hcs] at hmem
      rw [hcs, hds] at hflat
      have hobjects : ∀ u ∈ t :: cs, u.Object := fun u hu => hts u ((hmem u).1 hu)
      obtain ⟨o, hchoose⟩ := hf.exec_choose_alt .empty hobjects hcs
      obtain ⟨o', hchoose'⟩ :=
        hf.exec_choose_alt .empty (fun u hu => hobjects u (hflat.mem_iff.2 hu)) hds
      have hproper : ∀ r ∈ (t :: cs).map (Record.of f), r.Proper :=
        List.forall_mem_map.2 fun u hu => hf.proper (hobjects u hu)
      have hconflicts : Record.Evident ((t :: cs).map (Record.of f)) := by
        refine (hevident.records hf hts).of_mem_iff fun r => ?_
        simp only [List.mem_map, hmem]
      refine ⟨_, _, hchoose, hchoose', ?_⟩
      rcases Record.joinAll_perm hproper hconflicts (hflat.map (Record.of f))
        with ⟨hnone, hnone'⟩ | ⟨r, r', hr, hr', hget⟩
      · rw [hnone, hnone']
        simp only [Option.map_none, orAny, any_optIf]
        exact .inl ⟨Shape.isAny_ty_any o, Shape.isAny_ty_any o'⟩
      · rw [hr, hr']
        simp only [Option.map_some, orAny, Record.optIf_ty]
        refine .inr ⟨Record.isObj_ty _, Record.isObj_ty _, fun k => ?_⟩
        rw [Record.field?_ty, Record.field?_ty]
        exact congrArg (Option.map typed) (hget (Param.key k))

end

def points : List Ty :=
  [.detailed .obj "plane" [("x", .int), ("y", .int)] [],
    .detailed (Kind.obj.withOptional true) "space" [("z", .real),
    ("y", .detailed .alt "" [("", .int), ("", .real)] []), ("x", .num)] [],
    .detailed .obj "" [("Y?", .num), ("z", .int)] []]

theorem choose_objects_perm_points : (∀ t ∈ points, t.Object) ∧ Evident points ∧
    points.Perm points.reverse ∧
    ∃ u w, (choose (.alt points)).exec {} = (.ok u, {}) ∧ (choose (.alt points.reverse)).exec {} =
    (.ok w, {}) ∧ (u.isAny ∧ w.isAny ∨
        u.kind.isObj ∧ w.kind.isObj ∧ ∀ k, (u.field? k).map (·.2) = (w.field? k).map (·.2)) := by
  have hint : Ty.int.Simple true Kind.maxDepth := .basic false .int
  have hreal : Ty.real.Simple true Kind.maxDepth := .basic false .real
  have hnum : Ty.num.Simple true Kind.maxDepth := .basic false .num
  have hmixed : (Ty.detailed .alt "" [("", .int), ("", .real)] []).Simple true Kind.maxDepth :=
    @Simple.alt true Kind.maxDepth false [.int, .real] rfl (by simp [hint, hreal])
  have hobjects : ∀ t ∈ points, t.Object := by
    simp only [points, List.mem_cons, List.not_mem_nil, or_false, forall_eq_or_imp, forall_eq]
    refine ⟨.detailed false "plane" (by decide) (by decide) ?_,
      .detailed true "space" (by decide) ?_ ?_, .detailed false "" (by decide) (by decide) ?_⟩
    all_goals simp only [List.mem_cons, List.not_mem_nil, or_false, forall_eq_or_imp, forall_eq]
    · exact ⟨hint, hint⟩
    · decide
    · exact ⟨hreal, hmixed, hnum⟩
    · exact ⟨hnum, hint⟩
  -- All of them have the field with an alternative; the others are numbers.
  have hall : ∀ t ∈ points, t.params.find? (fun p => Param.key p.1 == "y") ≠ none := by
    simp only [points, List.mem_cons, List.not_mem_nil, or_false, forall_eq_or_imp, forall_eq,
      ne_eq, ← Option.isSome_iff_ne_none]
    decide
  have hnumbers : ∀ t ∈ points, ∀ p ∈ t.params, Param.key p.1 = "y" ∨ ∃ b : Basic,
    p.2 = typed (false, .basic b none) ∧ b ≤ .num := by
    have hkeys : Param.key "y" = "y" ∧ Param.key "Y?" = "y" := by decide
    have hint : Basic.int ≤ .num := by decide
    have hreal : Basic.real ≤ .num := by decide
    simp only [points, params, List.mem_cons, List.not_mem_nil, or_false,
      forall_eq_or_imp, forall_eq]
    exact ⟨⟨.inr ⟨.int, rfl, hint⟩, .inl hkeys.1⟩,
      ⟨.inr ⟨.real, rfl, hreal⟩, .inl hkeys.1, .inr ⟨.num, rfl, le_rfl⟩⟩,
      .inl hkeys.2, .inr ⟨.int, rfl, hint⟩⟩
  have hevident : Evident points := by
    rintro k ⟨t, ht, hnone⟩
    have hk : Param.key k ≠ "y" := by
      intro hk
      rw [field?, hk] at hnone
      exact hall t ht hnone
    refine ⟨.basic .num none, fun t ht p hp => ?_⟩
    have hkey : Param.key p.1 = Param.key k := by simpa using List.find?_some hp
    rcases hnumbers t ht p (List.mem_of_find?_eq_some hp) with hy | ⟨b, hb, hle⟩
    · exact absurd (hkey ▸ hy) hk
    · refine ⟨(false, .basic b none), ?_, ?_⟩
      · rw [hb]
        exact Sound.empty.exec_choose_ty (.basic b none) false
      · simp [Shape.le_def, Shape.Le, hle]
  exact ⟨hobjects, hevident, (List.reverse_perm points).symm,
    choose_objects_perm (by simp [points]) hobjects hevident (List.reverse_perm points).symm⟩

/-- In general the order matters. Between two objects that conflict in a field, an object without it
makes the field go unnoticed; and where fields are objects themselves, the order of their fields is
that of the first candidate. -/
theorem choose_objects_order :
    ((choose (.alt [.obj "" [("x", .int)], .obj "" [("y", .int)], .obj "" [("x", .str)]])).exec
    {}).1.toOption.any (·.kind.isObj) ∧
    ((choose (.alt [.obj "" [("x", .int)], .obj "" [("x", .str)], .obj "" [("y", .int)]])).exec
    {}).1.toOption.any (·.isAny) ∧
    let xy : Ty := .obj "" [("a", .obj "" [("x", .int), ("y", .int)])]
    let yx : Ty := .obj "" [("a", .obj "" [("y", .int), ("x", .int)])]
    ((choose (.alt [xy, yx])).exec {}).1.toOption.any fun u =>
      ((choose (.alt [yx, xy])).exec {}).1.toOption.any fun w =>
      (u.field? "a").any fun p => (w.field? "a").any fun q => !Ty.equal p.2 q.2 := by
  decide

end Subst

end Resolvent
