import Resolvent.Proofs.Residual.Logic

/-!
# Conditionals keep the meaning

A conditional becomes the branch that a known condition picks.
-/

namespace Resolvent.Residual

open Residual.Expr Run List Option

variable {ρ : String → Option Val} {env : Scope} {s s' s₁ s₂ : Session} {id i j k r : Nat}
  {ids is : List Nat} {e c c' : Expr}
  {args ns : List Expr} {d : Nat} {steps : Steps} {op : Oper} {v : Val} {ok : Bool} {V : List Nat}

lemma Handles.resolveBranch (H : Handles steps env ρ d)
    (hv : Visit env ρ d s id .conditional k ids args)
    (hg : Grows V s s₁) (hV : V ⊆ varsAll args) (hgood : Good ρ s [i] [e]) (he : e ∈ args)
    (hapart : ∀ j ∈ varsAll [e], j ∉ V)
    (hvalue : e.value? ρ = value? ρ (.call .conditional (some k) args)) :
    Ends (steps.resolve env i (Hint.branch k).ty) s₁
    (Outcome env ρ .void s (.call .conditional (some k) args)) := by
  have hk := hv.apart k (by simp [Oper.vars, Oper.isGeneric])
  have hkV : k ∉ V := fun h => hk.not_mem (hV h)
  have hpart : Part s.subst.size [.call .conditional (some k) args] [e] := .arg he
  have hdepth : e.depth ≤ d := depths_le_iff.1 hv.depths_le e he
  have hsym : ∀ n ∈ e.symbols, Agrees env ρ n := fun n hn =>
    hv.agrees n (by simpa using hpart.symbols (by simpa [symbolsAll] using hn))
  have hgrows : Grows (varsAll [.call .conditional (some k) args]) s s₁ :=
    hg.mono fun j hj => by simp [hV hj]
  -- The steps on the branch come after those on the condition.
  have hres {W : List Nat} {s₂ : Session} {r : Nat} {e' : Expr}
    (h : Residue ρ (varsAll [e] ++ W) s₁ [e] s₂ [r] [e'])
      (hW : W ⊆ [k]) : Residue ρ (varsAll [.call .conditional (some k) args]) s
      [.call .conditional (some k) args] s₂ [r] [e'] := by
    refine ⟨hgrows.trans h.grows fun j hj => .inl ?_, h.good, hpart.trans h.part hg.size_le⟩
    rcases mem_append.1 hj with hj | hj
    · exact (hpart.vars j hj).resolve_right (by
        have := (hgood.bounded j hj).2
        omega)
    · obtain rfl : j = k := by simpa using hW hj
      simp [Oper.vars, Oper.isGeneric]
  have hclear (hc : Clear env ρ s [.call .conditional (some k) args]) : Clear env ρ s₁ [e] := by
    have hc' : Clear env ρ s [e] :=
      ⟨fun n hn => hc.defined n (hpart.symbols hn), fun p hp => hc.args.undecided p ?_⟩
    · exact hc'.grow hg fun j hj => ⟨(hgood.bounded j hj).2, hapart j hj⟩
    · exact mem_markedAll.2 ⟨e, he, by simpa [markedAll] using hp⟩
  refine (H.resolve s₁ i e (.branch k) hg.fine (hgood.grow hg hapart) hdepth hsym ?_).mono
    fun r s₂ ho => ?_
  · intro j hj
    obtain rfl : j = k := by simpa [Hint.vars] using hj
    exact ⟨hk.pos, hk.le.trans hg.size_le, fun hmem => hk.not_mem (varsAll_subset he hmem)⟩
  cases r with
  | ok r =>
    obtain ⟨e', hres', hvalue', hsettled, htyp, _⟩ := ho
    exact Outcome.void_ok (hres hres' (by simp [Hint.vars])) (hvalue'.trans hvalue) hsettled htyp
  | error f =>
    cases f with
    | unresolved el =>
      obtain ⟨hlen, hrefused, hwaits⟩ := ho
      refine ⟨hlen.trans hg.lenient, refused_void.2 fun hc => ?_, fun hl => ?_⟩
      · rw [← hvalue, refused_void.1 hrefused (hclear hc)]
      · obtain ⟨e', hres', hvalue', hne⟩ := hwaits (hg.lenient.trans hl)
        exact ⟨e', hres (W := []) (by simpa using hres') (by simp), hvalue'.trans hvalue, hne⟩
    | _ =>
      -- The type variable is unbound if the way is clear, so every value is accepted.
      refine fun hc v hval _ => ho (hclear hc) v (hvalue.trans hval) ?_
      rw [Hint.Accepts, hg.frame k hk.le hkV]
      exact (undecided_call.1 hc.undecided).1 k (by simp [Oper.vars, Oper.isGeneric]) rfl

lemma resolveGroup_branch {n : Nat} (hn : n = 1 ∨ n = 2) (ids : List Nat) (k : Nat) :
    resolveGroup steps env (visited .conditional ids k) n =
      resolveAll steps env (Hint.branch k).ty ((visited .conditional ids k).group n) := by
  have hargs : (visited .conditional ids k).typ.args = [("cond", .any), ("then", .var k []),
    ("else?", .var k [])] := rfl
  have hthen : Layout.Role.of "then" = .single := by decide
  have helse : Layout.Role.of "else?" = .single := by decide
  have hhint {name : String} (hname : Layout.Role.of name = .single) (t : Ty) :
    Layout.hint (name, t) = t := by
    unfold Layout.hint
    rw [hname]
  unfold resolveGroup
  rcases hn with rfl | rfl
  · simp only [hargs, getElem?_cons_succ, getElem?_cons_zero, map_some, getD_some,
      hhint hthen, Hint.ty]
  · simp only [hargs, getElem?_cons_succ, getElem?_cons_zero, map_some, getD_some,
      hhint helse, Hint.ty]

lemma Handles.resolveBoth (H : Handles steps env ρ d) (hs : Fine s)
    (hgood : Good ρ s (j :: is) (e :: ns))
    (hd : depths (e :: ns) ≤ d) (hsym : ∀ n ∈ symbolsAll (e :: ns), Agrees env ρ n) (hpos : 0 < k)
    (hle : k ≤ s.subst.size) (hmem : k ∉ varsAll (e :: ns)) :
    Ends (resolveGroups steps env (visited .conditional (i :: j :: is) k) [1, 2]) s fun r s' =>
    match r with
      | .ok (groups, ok) => ∃ j' is' es', groups = [[j'], is'] ∧ values ρ es' = values ρ (e :: ns) ∧
          Residue ρ (varsAll (e :: ns) ++ [k]) s (e :: ns) s' (j' :: is') es' ∧
          (ok = true → (s'.subst.get? k).isSome)
      | .error f => Blocked s f s' := by
  obtain ⟨hyes, hno, hdisj⟩ := hgood.uncons
  have hvars : varsAll (e :: ns) = varsAll [e] ++ varsAll ns := varsAll_append [e] ns
  rw [hvars, mem_append, not_or] at hmem
  have hdepths : e.depth ≤ d ∧ depths ns ≤ d := by simpa [depths] using hd
  have hhint {s' : Session} {es : List Expr} (hsize : s.subst.size ≤ s'.subst.size)
    (hes : k ∉ varsAll es) :
      ∀ l ∈ (Hint.branch k).vars, 0 < l ∧ l ≤ s'.subst.size ∧ l ∉ varsAll es := by
    simpa [Hint.vars] using ⟨hpos, hle.trans hsize, hes⟩
  unfold resolveGroups
  rw [resolveGroup_branch (.inl rfl)]
  refine .bind (H.resolveAll (h := .branch k) hs hyes (by simpa [depths] using hdepths.1)
    (fun n hn => hsym n (by simp_all [symbolsAll])) (hhint le_rfl hmem.1)) ?_ ?_
  · rintro ⟨js, ok₁⟩ s₁ ⟨es₁, hres₁, hvalues₁, _, htaken₁⟩
    have hno₁ : Good ρ s₁ is ns := hno.grow hres₁.grows fun l hl hl' => by
      rcases mem_append.1 hl' with hl' | hl'
      · exact hdisj hl' hl
      · obtain rfl : l = k := by simpa [Hint.vars] using hl'
        exact hmem.2 hl
    have hsecond : Ends (resolveGroups steps env (visited .conditional (i :: j :: is) k) [2]) s₁
      fun r s₂ =>
        ∃ r', r = r'.map (fun g => ([g.1], g.2)) ∧ OutcomeAll env ρ (.branch k) s₁ ns r' s₂ := by
      refine Ends.resolveGroups ?_
      rw [resolveGroup_branch (.inr rfl)]
      exact (H.resolveAll (h := .branch k) hres₁.grows.fine hno₁ hdepths.2
        (fun n hn => hsym n (by simp [symbolsAll, hn])) (hhint hres₁.grows.size_le hmem.2)).mono
          fun r' s₂ ho => ⟨r', rfl, ho⟩
    refine .bind hsecond ?_ ?_
    · rintro ⟨gs, oks⟩ s₂ ⟨_ | ⟨is', ok₂⟩, hr, ho⟩
      · cases hr
      cases hr
      obtain ⟨es₂, hres₂, hvalues₂, _, _⟩ := ho
      obtain ⟨y, rfl⟩ : ∃ y, es₁ = [y] := by
        refine length_eq_one_iff.1 ?_
        simpa [values_eq_map] using congrArg length hvalues₁
      obtain ⟨j', rfl⟩ : ∃ j', js = [j'] := length_eq_one_iff.1 hres₁.good.shows.length_eq
      refine .pure ⟨j', is', y :: es₂, rfl, ?_, ?_, fun hok => ?_⟩
      · simp_all [values]
      · refine hres₁.append hres₂ (fun l hl => ⟨(hgood.bounded l hl).2, fun hl' => ?_⟩) ?_ hdisj
        · obtain rfl : l = k := by simpa [Hint.vars] using hl'
          rw [varsAll_append, mem_append] at hl
          exact hl.elim hmem.1 hmem.2
        · simpa [Hint.vars] using hle
      · exact hres₂.grows.bound k (htaken₁ (by simp_all) (by simp))
    · rintro f s₂ ⟨_ | r', hr, ho⟩
      · cases hr
        exact ho.2.of_grows hres₁.grows
      · cases hr
  · rintro f s₁ ⟨_, hblocked⟩
    exact hblocked

lemma Handles.keepBranches (H : Handles steps env ρ d)
    (hv : Visit env ρ d s id .conditional k (i :: j :: is) (c :: e :: ns))
    (hres : Residue ρ (varsAll [c]) s [c] s₁ [r] [c'])
    (hvalue : c'.value? ρ = c.value? ρ) (hok : ok = true → Stuck c')
    (hlack : Clear env ρ s [c] → c.value? ρ = none) : Ends (do
      let (groups, oks) ← resolveGroups steps env (visited .conditional (i :: j :: is) k) [1, 2]
      finish id (visited .conditional (i :: j :: is) k) ([r] :: groups) (ok && oks)) s₁
        (Outcome env ρ .void s (.call .conditional (some k) (c :: e :: ns))) := by
  have hk := hv.apart k (by simp [Oper.vars, Oper.isGeneric])
  have hnone (hc : Clear env ρ s (c :: e :: ns)) :
    value? ρ (.call .conditional (some k) (c :: e :: ns)) = none := by
    simp only [value?, values, hlack hc.uncons.1, Oper.apply, Oper.pick_none]
  have hvars : varsAll (c :: e :: ns) = varsAll [c] ++ varsAll (e :: ns) :=
    varsAll_append [c] (e :: ns)
  have hmem := hk.not_mem
  rw [hvars, mem_append, not_or] at hmem
  obtain ⟨_, hbranches, hdisj⟩ := hv.good.uncons
  have hdepths : c.depth ≤ d ∧ depths (e :: ns) ≤ d := by
    simpa only [depths, Nat.max_le] using hv.depths_le
  refine .bind (H.resolveBoth hres.grows.fine (hbranches.grow hres.grows fun l hl hl' =>
    hdisj hl' hl) hdepths.2
    (fun n hn => hv.agrees n (by simp_all [symbolsAll])) hk.pos (hk.le.trans hres.grows.size_le)
    hmem.2) ?_ ?_
  · rintro ⟨groups, oks⟩ s₂ ⟨j', is', es', rfl, hvalues, hres', hbound⟩
    have hall : Residue ρ (varsAll (c :: e :: ns) ++ [k]) s (c :: e :: ns) s₂ (r :: j' :: is')
      (c' :: es') := by
      refine Residue.append (U := [k]) ⟨hres.grows.mono (by simp), hres.good, hres.part⟩ hres'
        (fun l hl => ?_) ?_ hdisj
      · exact ⟨(hv.good.bounded l hl).2,
          fun hl' => hk.not_mem (by simpa [mem_singleton.1 hl'] using hl)⟩
      · simpa using hk.le
    have hlen : is'.length = is.length := by
      have h₁ := hres'.good.shows.length_eq
      have h₂ := hbranches.shows.length_eq
      have h₃ := congrArg length hvalues
      simp only [values_eq_map, length_map, length_cons] at h₁ h₂ h₃
      omega
    refine Outcome.finish hall hv.apart (hall.grows.store.content hv.content (by simp)) ?_ ?_
      (fun _ _ hsum => absurd hsum (by simp [isSum])) (fun hoks => ?_) fun _ hc => hnone hc
    · simpa [hlen] using hv.arity
    · simp only [value?, values, hvalue, hvalues]
    · rw [Bool.and_eq_true] at hoks
      refine ⟨.conditional (hok hoks.1), fun l hl => ?_⟩
      obtain rfl : l = k := by simpa [Oper.vars, Oper.isGeneric] using hl
      exact hbound hoks.2
  · exact fun f s₂ hblocked => .of_blocked (hblocked.of_grows hres.grows) fun hc => hnone hc.args

lemma Handles.resolveCond (H : Handles steps env ρ d)
    (hv : Visit env ρ d s id .conditional k ids args) :
    Ends (Operator.resolveCond steps env id (visited .conditional ids k)) s
      (Outcome env ρ .void s (.call .conditional (some k) args)) := by
  obtain ⟨i, j, is, rfl, his⟩ : ∃ i j is, ids = i :: j :: is ∧ is.length ≤ 1 := by
    have harity := hv.arity
    rcases ids with _ | ⟨i, _ | ⟨j, is⟩⟩
    · cases harity
    · cases harity
    · refine ⟨i, j, is, rfl, ?_⟩
      simp only [Oper.arity, length_cons, Bool.or_eq_true, beq_iff_eq] at harity
      omega
  obtain ⟨c, e, ns, rfl⟩ : ∃ c e ns, args = c :: e :: ns := by
    have hlen := hv.good.shows.length_eq
    rcases args with _ | ⟨c, _ | ⟨e, ns⟩⟩
    · cases hlen
    · cases hlen
    · exact ⟨c, e, ns, rfl⟩
  obtain ⟨hcond, hbranches, hdisj⟩ := hv.good.uncons
  obtain ⟨hyes, hno, _⟩ := hbranches.uncons
  have hdepths : c.depth ≤ d ∧ depths (e :: ns) ≤ d := by
    simpa only [depths, Nat.max_le] using hv.depths_le
  refine .spanOf_bind (.bind (Q := fun r s' => r = .ok i ∧ s = s') (.pure ⟨rfl, rfl⟩) ?_ (by simp))
  rintro _ _ ⟨hi, rfl⟩
  cases hi
  refine .bind (H.tried (h := .void) hv.fine hcond hdepths.1 (fun n hn =>
    hv.agrees n (by simp [symbolsAll, hn])) (by simp [Hint.vars])) ?_ ?_
  · rintro ⟨r, ok⟩ s₁ htried
    refine .val?_bind ?_
    obtain ⟨c', hres, hvalue, ⟨rfl, v, rfl⟩ | ⟨hlit, hok, hlack⟩⟩ := htried.void_cases
    · rw [hres.good.shows.1.val?]
      have hbranch {b : Nat} {x : Expr} (hgood : Good ρ s [b] [x]) (hx : x ∈ e :: ns)
          (hval : x.value? ρ = value? ρ (.call .conditional (some k) (c :: e :: ns))) :
          Ends (steps.resolve env b (Hint.branch k).ty) s₁
          (Outcome env ρ .void s (.call .conditional (some k) (c :: e :: ns))) :=
        H.resolveBranch hv hres.grows (varsAll_subset (by simp)) hgood (by simp [hx])
          (fun l hl hl' => hdisj hl' (varsAll_subset hx hl)) hval
      have hc : c.value? ρ = some v := hvalue.symm
      dsimp only [lit?]
      have hpick {ns : List Expr} (hlen : ns.length ≤ 1) :
        value? ρ (.call .conditional (some k) (c :: e :: ns)) =
          if v.isZero then (ns.head?.map (·.value? ρ)).getD (some .null) else e.value? ρ := by
        rcases ns with _ | ⟨x, _ | ⟨y, ns⟩⟩
        · simp only [value?, values, hc, Oper.apply, Oper.pick, bind_some, head?_nil, map_none,
            getD_none]
        · simp only [value?, values, hc, Oper.apply, Oper.pick, bind_some, head?_cons, map_some,
            getD_some]
        · simp at hlen
      have hns := hno.shows.length_eq
      cases hz : v.isZero with
      | false => exact hbranch (b := j) hyes (by simp) (by simp [hpick (hns ▸ his), hz])
      | true =>
        rcases is with _ | ⟨n, _ | ⟨m, is⟩⟩
        · obtain rfl : ns = [] := eq_nil_of_length_eq_zero hns.symm
          exact Outcome.literal
            (hres.grows.mono fun l hl => by simp [varsAll_subset (mem_cons_self ..) hl]) rfl
            (by simp [hpick, hz])
        · obtain ⟨x, rfl⟩ := length_eq_one_iff.1 hns.symm
          exact hbranch (b := n) hno (by simp) (by simp [hpick, hz])
        · simp at his
    · rw [hres.good.shows.1.val?, hlit]
      exact H.keepBranches hv hres hvalue hok hlack
  · rintro f s₁ ⟨hrefused, hblocked⟩
    refine .of_blocked hblocked fun hc => ?_
    simp only [value?, values, refused_void.1 hrefused hc.args.uncons.1, Oper.apply, Oper.pick_none]

/-! ## All operators -/

lemma Handles.operator (H : Handles steps env ρ d) (hρ : Scalars ρ)
    (hv : Visit env ρ d s id op k ids args) :
    Ends (Operator.resolve steps env id (visited op ids k)) s
    (Outcome env ρ .void s (.call op (some k) args)) := by
  cases op with
  | logic c =>
    cases c with
    | true => exact H.resolveLogic hv
    | false => exact H.resolveLogic hv
  | negation => exact H.resolveNot hv
  | conditional => exact H.resolveCond hv
  | fold f =>
    cases f with
    | truth | sum | concat | equality | order => exact H.resolveFold hρ hv

end Resolvent.Residual
