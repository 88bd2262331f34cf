import Resolvent.Proofs.Residual.Arguments

/-!
# Reductions keep the meaning

Given steps that resolve its arguments, an operator resolves a call of it to a residue of the same
value.
-/

namespace Resolvent.Residual

open Residual.Expr Run List Option

variable {ρ : String → Option Val} {env : Scope} {s s' s₁ s₂ : Session} {id k : Nat}
  {ids ids' : List Nat} {e e' : Expr}
  {args args' es : List Expr} {d : Nat} {steps : Steps} {op : Oper} {v : Val}
  {P : Except Failure (List (List Nat) × Bool) → Session → Prop} {span : Span} {st : Store}

def visited (op : Oper) (ids : List Nat) (k : Nat) : Call :=
  ⟨op.callable, op.groups ids, some (op.signature k)⟩

lemma Oper.outerVars_result (op : Oper) (k : Nat) :
    (op.signature k).result.outerVars ⊆ op.vars (some k) := by
  have hvar : (Ty.var k []).outerVars ⊆ [k] := by simp [Ty.outerVars_of_isVar]
  cases op with
  | logic c => cases c <;> exact nil_subset _
  | negation => exact nil_subset _
  | conditional => exact hvar
  | fold f =>
    cases f with
    | sum => exact hvar
    | truth | concat | equality | order => exact nil_subset _

/-! ## How operators end -/

lemma Outcome.void_ok {r : Nat} (hres : Residue ρ (varsAll [e]) s [e] s' [r] [e'])
    (hvalue : e'.value? ρ = e.value? ρ)
    (hsettled : Settled e') (htyp : ∀ i ∈ (s'.store.typeOf r).outerVars, (s'.subst.get? i).isSome) :
    Outcome env ρ .void s e (.ok r) s' :=
  ⟨e', by simpa [Hint.vars] using hres, hvalue, hsettled, htyp, trivial⟩

lemma Outcome.literal (hg : Grows (varsAll [e]) s s₁) (hv : v.isScalar)
    (hvalue : e.value? ρ = some v) : Ends (Run.literal v span) s₁ (Outcome env ρ .void s e) := by
  have hg' : Grows (varsAll [e]) s { s₁ with store := (s₁.store.alloc (.literal v) span).2 } :=
    hg.trans (Grows.alloc hg.fine _ _) fun k hk => .inl hk
  refine void_ok (.lit hg' ⟨hv, .inl (Store.content_alloc_size _ _ _)⟩) hvalue.symm (.inl ⟨v, rfl⟩)
    fun i hi => ?_
  obtain ⟨kind, hkind, hvar, _⟩ := Hint.exists_plain_typeOf hv
  have hcontent : (s₁.store.alloc (.literal v) span).2.content s₁.store.size = .literal v := by simp
  change i ∈ ((s₁.store.alloc (.literal v) span).2.typeOf s₁.store.size).outerVars at hi
  rw [Store.typeOf] at hi
  simp [hkind, hvar] at hi

lemma Outcome.finish {ok : Bool}
    (h : Residue ρ (varsAll args ++ op.vars (some k)) s args s₁ ids' args')
    (hvars : ∀ j ∈ op.vars (some k), Apart ρ s op (some k) args j)
    (hid : s₁.store.content id = .call (visited op ids k)) (harity : op.arity ids'.length)
    (hvalue : value? ρ (.call op (some k) args') = value? ρ (.call op (some k) args))
    (hready : ∀ j ∈ op.vars (some k), (call op (some k) args).isSum →
    value? ρ (.call op (some k) args) ≠ none → Open s₁.subst j)
    (hok : ok = true → Stuck (.call op (some k) args') ∧ ∀ j ∈ op.vars (some k),
    (s₁.subst.get? j).isSome)
    (hwait : ok = false → Clear env ρ s args → value? ρ (.call op (some k) args) = none) :
    Ends (Run.finish id (visited op ids k) (op.groups ids') ok) s₁
    (Outcome env ρ .void s (.call op (some k) args)) := by
  -- The element is the old one or new; either way it is a call of the residues.
  have hend (next : Nat) (st : Store) (hkept : s₁.store.Kept st)
    (hnext : st.content next = .call (visited op ids' k)) :
      Outcome env ρ .void s (.call op (some k) args) (if ok
      then .ok next else .error (.unresolved next)) { s₁ with store := st } := by
    have hg : Grows (varsAll args) s₁ { s₁ with store := st } :=
      ⟨⟨h.grows.fine.catalog, h.grows.fine.sound, h.grows.fine.closed⟩, hkept, rfl, le_rfl,
        fun _ hi => hi, fun _ _ _ => rfl⟩
    have hargs : Residue ρ (varsAll args ++ op.vars (some k)) s args { s₁
      with store := st } ids' args' :=
      ⟨h.grows.trans hg fun i hi => .inl (by simp [hi]),
        ⟨h.good.shows.kept hkept, h.good.distinct, h.good.bounded, h.good.ready⟩, h.part⟩
    have hcalls : Calls st next op (some k) ids' := ⟨harity, hnext⟩
    have hres := hargs.call hvars hcalls fun j hj hsum hne => hready j hj hsum (hvalue ▸ hne)
    cases ok with
    | true =>
      refine void_ok hres hvalue (.inr (hok rfl).1) fun i hi =>
        (hok rfl).2 i (op.outerVars_result k ?_)
      rw [Store.typeOf, hnext] at hi
      exact hi
    | false =>
      refine ⟨hres.grows.lenient, refused_void.2 fun hc => hwait rfl hc.args,
        fun _ => ⟨_, hres, hvalue, nofun⟩⟩
  have hflag (next : Nat) (st : Store) (hkept : s₁.store.Kept st)
    (hnext : st.content next = .call (visited op ids' k)) :
      Ends (if ok then pure next else throw (.unresolved next)) { s₁ with store := st }
        (Outcome env ρ .void s (.call op (some k) args)) := by
    have := hend next st hkept hnext
    cases ok with
    | true => exact .pure this
    | false => exact .throw this
  unfold Run.finish
  by_cases hsame : op.groups ids' = (visited op ids k).groups
  · simp only [hsame]
    refine hflag id s₁.store (.refl _) ?_
    rw [hid]
    have hids : ids' = ids := by simpa [visited, Oper.flatten_groups] using congrArg flatten hsame
    rw [hids]
  · simp only [hsame]
    exact hflag s₁.store.size _ (.alloc _ (.call (visited op ids' k)) (s₁.store.span id))
      (Store.content_alloc_size _ _ _)

/-! ## Reductions -/

def Scalars (ρ : String → Option Val) : Prop := ∀ n v, ρ n = some v → v.isScalar

lemma Oper.exists_bool_of_junction {c : Bool} {xs : List (Option Val)}
    (h : junction c xs = some v) : ∃ b, v = .bool b := by
  induction xs with
  | nil => exact ⟨c, (some.inj h).symm⟩
  | cons x xs ih =>
    cases x with
    | none => cases h
    | some u =>
      rw [junction] at h
      split at h
      · exact ⟨!c, (some.inj h).symm⟩
      · exact ih h

lemma Shows.isScalar (hρ : Scalars ρ) (h : Shows st id e) (hv : e.value? ρ = some v) :
    v.isScalar := by
  induction e using Expr.induct generalizing id v with
  | lit w =>
    obtain rfl : w = v := some.inj hv
    exact h.1
  | sym n => exact hρ n v hv
  | call op mark args ih =>
    obtain ⟨ids, hargs, _⟩ := h
    cases op with
    | logic c =>
      obtain ⟨b, rfl⟩ := Oper.exists_bool_of_junction hv
      rfl
    | negation =>
      rcases args with _ | ⟨a, _ | _⟩
      · cases hv
      · obtain ⟨u, _, rfl⟩ := map_eq_some_iff.1 hv
        rfl
      · cases hv
    | conditional =>
      have harg (a : Expr) (ha : a ∈ args) (hav : a.value? ρ = some v) : v.isScalar := by
        obtain ⟨i, _, hi⟩ := hargs.exists_of_mem ha
        exact ih a ha hi hav
      rcases Oper.pick_eq_some hv with rfl | hmem
      · rfl
      · rw [values_eq_map, List.mem_map] at hmem
        obtain ⟨a, ha, hav⟩ := hmem
        exact harg a ha hav
    | fold f =>
      obtain ⟨vs, hvs, _, _, hr⟩ := Folder.apply_eq_some_iff.1 hv
      refine Folder.isScalar_of_reduce (fun u hu => ?_) hr
      have hmem : some u ∈ values ρ args := hvs ▸ List.mem_map_of_mem hu
      rw [values_eq_map, List.mem_map] at hmem
      obtain ⟨a, ha, hau⟩ := hmem
      obtain ⟨i, _, hi⟩ := hargs.exists_of_mem ha
      exact ih a ha hi hau

/-- What an operator may rely on when it resolves a call that has been visited. -/
structure Visit (env : Scope) (ρ : String → Option Val) (d : Nat) (s : Session) (id : Nat)
    (op : Oper) (k : Nat) (ids : List Nat) (args : List Expr) : Prop where
  fine : Fine s
  good : Good ρ s ids args
  apart : ∀ j ∈ op.vars (some k), Apart ρ s op (some k) args j
  content : s.store.content id = .call (visited op ids k)
  arity : op.arity ids.length
  depths_le : depths args ≤ d
  agrees : ∀ n ∈ symbolsAll args, Agrees env ρ n

def Folder.hint (f : Folder) (k : Nat) : Hint :=
  match f with
  | .truth => .any
  | .sum => .number k
  | .concat => .text
  | .equality | .order => .void

lemma Folder.vars_hint (f : Folder) (k : Nat) : (f.hint k).vars = (Oper.fold f).vars (some k) := by
  cases f <;> rfl

lemma elem?_list (t : Ty) : (Ty.list t).elem? = some t := by
  have hcont : (Ty.list t).kind.isElemCont = true := by
    change Kind.list.isElemCont = true
    decide
  rw [Ty.elem?, if_pos hcont]
  rfl

def Folder.param (f : Folder) (k : Nat) : Param :=
  match f with
  | .truth => ("a", .any)
  | .sum => ("plain", .list (.var k [.num]))
  | .concat => ("plain", .list .char)
  | .equality | .order => ("plain", .plain .list)

lemma Folder.args_visited (f : Folder) (k : Nat) (ids : List Nat) :
    (visited (.fold f) ids k).typ.args = [f.param k] := by
  cases f <;> rfl

lemma Folder.hint_param (f : Folder) (k : Nat) : Layout.hint (f.param k) = (f.hint k).ty := by
  have hplain : Layout.Role.of "plain" = .plain := by decide
  have hsingle : Layout.Role.of "a" = .single := by decide
  have hnone : (Ty.plain .list).elem? = none := by decide
  unfold Layout.hint
  cases f with
  | truth => rw [param, hsingle, hint, Hint.ty]
  | sum | concat => rw [param, hplain, elem?_list, hint, Hint.ty, getD_some]
  | equality | order => rw [param, hplain, hnone, hint, Hint.ty, getD_none]

lemma Ends.resolveGroups {c : Call} {i : Nat}
    (h : Ends (resolveGroup steps env c i) s fun r s' => P (r.map fun g => ([g.1], g.2)) s') :
    Ends (Run.resolveGroups steps env c [i]) s P := by
  unfold Run.resolveGroups
  refine .bind h ?_ fun e s' hP => hP
  rintro ⟨g, ok⟩ s' hP
  cases ok with
  | true => exact hP
  | false => exact hP

lemma Ends.resolveArgs {f : Folder} (h : Ends (resolveAll steps env (f.hint k).ty ids) s fun r s' =>
    P (r.map fun g => ([g.1], g.2)) s') :
    Ends (Run.resolveArgs steps env (visited (.fold f) ids k)) s P := by
  refine resolveGroups (i := 0) ?_
  unfold resolveGroup
  simp only [f.args_visited, getElem?_cons_zero, map_some, f.hint_param]
  exact h

/-- What resolving the arguments of a reduction comes to. -/
structure Folded (env : Scope) (ρ : String → Option Val) (f : Folder) (k : Nat) (s : Session)
    (args : List Expr) (s₁ : Session) (ids' : List Nat) (ok : Bool) (args' : List Expr) : Prop where
  residue : Residue ρ (varsAll args ++ (Oper.fold f).vars (some k)) s args s₁ ids' args'
  values : values ρ args' = values ρ args
  arity : f.arity ids'.length
  admits : ∀ v, .lit v ∈ args' → f.admits v
  ready : ∀ j ∈ (Oper.fold f).vars (some k), (call (.fold f) (some k) args).isSum →
  f.apply (Expr.values ρ args) ≠ none → Open s₁.subst j
  resolved : ok = true → (∀ a ∈ args', Settled a) ∧ ∀ j ∈ (Oper.fold f).vars (some k),
  (s₁.subst.get? j).isSome
  waiting : ok = false → Clear env ρ s args → f.apply (Expr.values ρ args) = none

lemma Visit.accepts {f : Folder} (hv : Visit env ρ d s id (.fold f) k ids args) (hρ : Scalars ρ)
    (hne : f.apply (values ρ args) ≠ none) (ha : e ∈ args) :
    ∃ v, e.value? ρ = some v ∧ (f.hint k).Accepts s.subst v := by
  obtain ⟨w, hw⟩ := ne_none_iff_exists'.1 hne
  obtain ⟨vs, hvs, _, hadmits, hr⟩ := Folder.apply_eq_some_iff.1 hw
  have hmem : e.value? ρ ∈ vs.map some := by
    rw [← hvs, values_eq_map]
    exact List.mem_map_of_mem ha
  obtain ⟨v, hvmem, hev⟩ := List.mem_map.1 hmem
  refine ⟨v, hev.symm, ?_⟩
  cases f with
  | truth | equality | order => trivial
  | concat => exact List.all_eq_true.1 hadmits v hvmem
  | sum =>
    have hscalars : ∀ u ∈ vs, u.isScalar := fun u hu => by
      have hu' : some u ∈ values ρ args := hvs ▸ List.mem_map_of_mem hu
      rw [values_eq_map, List.mem_map] at hu'
      obtain ⟨a, ha, hau⟩ := hu'
      obtain ⟨i, _, hi⟩ := hv.good.shows.exists_of_mem ha
      exact hi.isScalar hρ hau
    exact ⟨(Folder.sum_ints hscalars hr).2 v hvmem,
      (hv.apart k (by simp [Oper.vars, Oper.isGeneric])).ready rfl hne⟩

lemma Handles.foldArgs {f : Folder} (H : Handles steps env ρ d) (hρ : Scalars ρ)
    (hv : Visit env ρ d s id (.fold f) k ids args) :
    Ends (resolveArgs steps env (visited (.fold f) ids k)) s fun r s₁ => match r with
      | .ok (groups, ok) => ∃ ids' args', groups = [ids'] ∧ Folded env ρ f k s args s₁ ids' ok args'
      | .error f' => (Clear env ρ s args → f.apply (values ρ args) = none) ∧ Blocked s f' s₁ := by
  refine Ends.resolveArgs
    ((H.resolveAll (h := f.hint k) hv.fine hv.good hv.depths_le hv.agrees fun j hj => ?_).mono
    fun r s₁ ho => ?_)
  · have hj' := hv.apart j (by rwa [f.vars_hint] at hj)
    exact ⟨hj'.pos, hj'.le, hj'.not_mem⟩
  cases r with
  | error _ =>
    refine ⟨fun hc => ?_, ho.2⟩
    by_contra hne
    exact ho.1 (fun j => by cases f <;> simp [Folder.hint]) hc fun e he => hv.accepts hρ hne he
  | ok r =>
    obtain ⟨ids', ok⟩ := r
    obtain ⟨args', hres, hvalues, hok, htaken⟩ := ho
    have hlen : ids'.length = ids.length := by
      have := congrArg length hvalues
      simp only [values_eq_map, length_map] at this
      rw [hres.good.shows.length_eq, hv.good.shows.length_eq, this]
    have harity : f.arity ids'.length := by
      rw [hlen]
      exact hv.arity
    refine ⟨ids', args', rfl, by rwa [f.vars_hint] at hres, hvalues, harity, fun v hmem => ?_,
      fun j hj _ hne => ?_, fun htrue => ?_, fun hfalse => ?_⟩
    · cases f with
      | concat => exact htaken v hmem
      | truth | sum | equality | order => rfl
    · cases f with
      | sum =>
        obtain rfl : j = k := by simpa [Oper.vars, Oper.isGeneric] using hj
        refine htaken.2 (fun e he => ?_) ((hv.apart j hj).ready rfl hne)
        obtain ⟨v, hev, ⟨n, rfl⟩, _⟩ := hv.accepts hρ hne he
        exact ⟨n, hev⟩
      | truth | concat | equality | order => simp [Oper.vars, Oper.isGeneric] at hj
    · subst htrue
      refine ⟨hok, fun j hj => ?_⟩
      cases f with
      | sum =>
        obtain rfl : j = k := by simpa [Oper.vars, Oper.isGeneric] using hj
        refine htaken.1 rfl fun hnil => ?_
        rw [hres.good.shows.length_eq, hnil] at harity
        cases harity
      | truth | concat | equality | order => simp [Oper.vars, Oper.isGeneric] at hj
    · subst hfalse
      intro hc
      obtain ⟨e, he, hnone⟩ := hok hc
      by_contra hne
      obtain ⟨v, hev, _⟩ := hv.accepts hρ hne he
      rw [hnone] at hev
      cases hev

lemma ShowsAll.knownValues (h : ShowsAll st ids es) :
    ∃ rest, es = (Operator.knownValues st ids).map .lit ++ rest ∧
    (∀ v ∈ Operator.knownValues st ids, v.isScalar) ∧
      ∀ a, rest.head? = some a → ∀ v, a ≠ .lit v := by
  induction ids generalizing es with
  | nil => exact ⟨es, rfl, by simp [Operator.knownValues], by cases es <;> simp_all [ShowsAll]⟩
  | cons i ids ih =>
    cases es with
    | nil => exact h.elim
    | cons e es =>
      have hval := h.1.val?
      cases hlit : e.lit? with
      | some v =>
        obtain rfl : e = .lit v := by cases e <;> simp_all [lit?]
        obtain ⟨rest, hes, hscalars, hrest⟩ := ih h.2
        simp only [Operator.knownValues, hval, hlit]
        exact ⟨rest, by simp [← hes], by simpa using ⟨h.1.1, hscalars⟩, hrest⟩
      | none =>
        simp only [Operator.knownValues, hval, hlit]
        refine ⟨e :: es, rfl, by simp, fun a ha v hav => ?_⟩
        obtain rfl : e = a := by simpa using ha
        simp [hav, lit?] at hlit

section

variable {f : Folder} {ok : Bool} {vs : List Val} {rest : List Expr} {w : Val}

lemma Folded.keep (hf : Folded env ρ f k s args s₁ ids' ok args')
    (hv : Visit env ρ d s id (.fold f) k ids args)
    (hstuck : ok = true → Stuck (.call (.fold f) (some k) args')) :
    Ends (finish id (visited (.fold f) ids k) [ids'] ok) s₁
    (Outcome env ρ .void s (.call (.fold f) (some k) args)) :=
  Outcome.finish hf.residue hv.apart (hf.residue.grows.store.content hv.content nofun) hf.arity
    (by simp only [value?, hf.values]) hf.ready (fun h => ⟨hstuck h, (hf.resolved h).2⟩) hf.waiting

lemma Folded.front (hf : Folded env ρ f k s args s₁ ids' ok args')
    (hv : Visit env ρ d s id (.fold f) k ids args) (hargs : args' = vs.map .lit ++ rest)
    (hlead : f.leading) (hne : vs ≠ []) (hscalars : ∀ v ∈ vs, v.isScalar) (hr : f.reduce vs = .ok w)
    (hstuck : ok = true → ∃ a rest', rest = a :: rest' ∧ Stuck a) : Ends (do
      let folded ← literal w span
      finish id (visited (.fold f) ids k) [folded :: ids'.drop vs.length] ok) s₁
        (Outcome env ρ .void s (.call (.fold f) (some k) args)) := by
  subst hargs
  have hw : w.isScalar := Folder.isScalar_of_reduce hscalars hr
  have hadmits : ∀ v ∈ vs, f.admits v := fun v hmem => hf.admits v (by simp [hmem])
  have hvalue : f.apply (some w :: Expr.values ρ rest) = f.apply (Expr.values ρ args) := by
    rw [Folder.apply_fold hlead hscalars hadmits hne hr, ← hf.values]
    simp [values_eq_map, Function.comp_def, value?]
  have hg : Grows [] s₁ { s₁ with store := (s₁.store.alloc (.literal w) span).2 } :=
    .alloc hf.residue.grows.fine _ _
  have hsplit : Good ρ s₁ (ids'.take vs.length ++ ids'.drop vs.length) (vs.map .lit ++ rest) := by
    rw [take_append_drop]
    exact hf.residue.good
  have hlen : (ids'.take vs.length).length = (vs.map lit).length := by
    have := hf.residue.good.shows.length_eq
    simp only [length_append, length_map] at this
    simp only [length_take, length_map]
    omega
  have hgood : Good ρ { s₁ with store := (s₁.store.alloc (.literal w) span).2 }
    (s₁.store.size :: ids'.drop vs.length) (.lit w :: rest) :=
    (Good.lit ⟨hw, .inl (Store.content_alloc_size _ _ _)⟩).append
      ((hsplit.split hlen).2.1.grow hg (by simp)) (by simp [varsAll, markedAll, marked])
  have hres : Residue ρ (varsAll args ++ (Oper.fold f).vars (some k)) s args
      { s₁ with store := (s₁.store.alloc (.literal w) span).2 }
      (s₁.store.size :: ids'.drop vs.length) (.lit w :: rest) :=
    ⟨hf.residue.grows.trans hg (by simp), hgood, hf.residue.part.fold hne w⟩
  refine .alloc_bind (Outcome.finish hres hv.apart (hres.grows.store.content hv.content (by simp))
    ?_ hvalue hf.ready (fun h => ?_) hf.waiting)
  · cases f with
    | sum | concat => rfl
    | truth | equality | order => simp [Folder.leading] at hlead
  · obtain ⟨a, rest', rfl, hs⟩ := hstuck h
    have hpart : Stuck (.call (.fold f) (some k) ([w].map .lit ++ a :: rest')) := .part hs
    exact ⟨hpart, (hf.resolved h).2⟩

lemma Handles.resolveFold (H : Handles steps env ρ d) (hρ : Scalars ρ)
    (hv : Visit env ρ d s id (.fold f) k ids args) :
    Ends (Operator.resolveFold f.leading f.reduce steps env id (visited (.fold f) ids k)) s
      (Outcome env ρ .void s (.call (.fold f) (some k) args)) := by
  refine .spanOf_bind (.bind (H.foldArgs hρ hv) ?_ ?_)
  · rintro ⟨groups, ok⟩ s₁ ⟨ids', args', rfl, hf⟩
    refine .get_bind ?_
    obtain ⟨rest, hargs, hscalars, hrest⟩ := hf.residue.good.shows.knownValues
    generalize hvals : Operator.knownValues s₁.store ids' = vals at hargs hscalars
    have hlen : ids'.length = vals.length + rest.length := by
      rw [hf.residue.good.shows.length_eq, hargs, length_append, length_map]
    -- The first argument that is not known is stuck once all arguments are resolved.
    have hpart (hok : ok = true) (hne : vals.length ≠ ids'.length) : ∃ a rest', rest = a :: rest' ∧
      Stuck a := by
      cases rest with
      | nil => exact absurd hlen.symm hne
      | cons a rest =>
        refine ⟨a, rest, rfl, ?_⟩
        exact ((hf.resolved hok).1 a (by simp [hargs])).resolve_left fun ⟨v, hav⟩ =>
          hrest a rfl v hav
    have hstuck (hok : ok = true) (hne : vals.length ≠ ids'.length) :
      Stuck (.call (.fold f) (some k) args') := by
      obtain ⟨a, rest', hrest', hs⟩ := hpart hok hne
      rw [hargs, hrest']
      exact .part hs
    simp only [hvals]
    refine .ite (fun hall => ?_) fun hsome => ?_
    · obtain ⟨hall, hok, -⟩ := hall
      obtain rfl : rest = [] := eq_nil_of_length_eq_zero (by omega)
      rw [append_nil] at hargs
      have hvalue : f.apply (values ρ args) = (f.reduce vals).toOption := by
        have hvs : values ρ args' = vals.map some := by simp [hargs, values_eq_map, value?]
        have harity := hf.arity
        have hadmits : vals.all f.admits :=
          List.all_eq_true.2 fun v hmem => hf.admits v (by simp [hargs, hmem])
        rw [← hf.values, hvs, Folder.apply, length_map, hall, harity, Folder.known_map_some]
        simp only [↓reduceIte, bind_some, hadmits]
      cases hr : f.reduce vals with
      | ok v =>
        refine Outcome.literal (hf.residue.grows.mono fun j hj => ?_)
          (Folder.isScalar_of_reduce hscalars hr) ?_
        · simp only [varsAll_call, mem_append] at hj ⊢
          exact hj.symm
        · rw [value?, Oper.apply, hvalue, hr]
          rfl
      | error c =>
        refine hf.keep hv fun _ => ?_
        rw [hargs]
        exact .reduce hr
    · have hne (hok : ok = true) : vals.length ≠ ids'.length := fun h => hsome ⟨h, hok, rfl⟩
      refine .ite (fun hfront => ?_) fun _ => hf.keep hv fun hok => hstuck hok (hne hok)
      split
      · next w first last hr _ _ =>
        exact hf.front hv hargs hfront.1 (fun h => by simp [h] at hfront) hscalars hr fun hok =>
          hpart hok (hne hok)
      · exact hf.keep hv fun hok => hstuck hok (hne hok)
  · rintro f' s₁ ⟨hnone, hblocked⟩
    exact .of_blocked hblocked fun hc => hnone hc.args

end

end Resolvent.Residual
