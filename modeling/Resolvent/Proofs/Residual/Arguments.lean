import Resolvent.Proofs.Residual.Residue

/-!
# Resolving arguments

Resolving an expression in a scope that agrees with an assignment of values to symbols leaves a
residue of the same value, which is a scalar or has no value at all once it is resolved.
-/

namespace Resolvent.Residual

open Residual.Expr Run List

variable {ρ : String → Option Val} {env : Scope} {s s' s₁ s₂ : Session} {id r : Nat}
  {ids : List Nat} {e e' : Expr}
  {es es' : List Expr} {h : Hint} {d : Nat} {steps : Steps} {V : List Nat} {f : Failure} {ok : Bool}

def Agrees (env : Scope) (ρ : String → Option Val) (n : String) : Prop :=
  env.lookup n = .ok none ∨ ∃ v : Val, v.isScalar ∧ ρ n = some v ∧
    env.lookup n = .ok (some (.ofVal v))

/-- The way is clear for expressions with a value: the scope defines all symbols that have one, and
no conditional is bound to the type of a branch. -/
structure Clear (env : Scope) (ρ : String → Option Val) (s : Session) (es : List Expr) : Prop where
  defined : ∀ n ∈ symbolsAll es, ρ n ≠ none → env.lookup n ≠ .ok none
  undecided : Undecided s es

lemma Clear.of_append (hc : Clear env ρ s (es ++ es')) : Clear env ρ s es ∧ Clear env ρ s es' := by
  have hu := undecided_append.1 hc.undecided
  exact ⟨⟨fun n hn => hc.defined n (by simp [symbolsAll_append, hn]), hu.1⟩,
    ⟨fun n hn => hc.defined n (by simp [symbolsAll_append, hn]), hu.2⟩⟩

lemma Clear.uncons (hc : Clear env ρ s (e :: es)) : Clear env ρ s [e] ∧ Clear env ρ s es := by
  have hc' : Clear env ρ s ([e] ++ es) := hc
  exact hc'.of_append

lemma Clear.args {op : Oper} {mark : Option Nat} (hc : Clear env ρ s [.call op mark es]) :
    Clear env ρ s es :=
  ⟨by simpa using hc.defined, (undecided_call.1 hc.undecided).2⟩

lemma Clear.grow (hc : Clear env ρ s es) (hg : Grows V s s')
    (hV : ∀ k ∈ varsAll es, k ≤ s.subst.size ∧ k ∉ V) : Clear env ρ s' es :=
  ⟨hc.defined, hc.undecided.grow hg hV⟩

def Taken (h : Hint) (s s' : Session) (e' : Expr) : Prop :=
  match h with
  | .void | .any => True
  | .text => ∀ v, e' = .lit v → Folder.concat.admits v
  | .number k => (s'.subst.get? k).isSome ∧ ∀ n, e' = .lit (.int n) → Open s.subst k →
      Open s'.subst k
  | .branch k => (s'.subst.get? k).isSome

def Done (ρ : String → Option Val) (h : Hint) (s : Session) (e : Expr) (r : Nat) (s' : Session) :
    Prop :=
  ∃ e', Residue ρ (varsAll [e] ++ h.vars) s [e] s' [r] [e'] ∧ e'.value? ρ = e.value? ρ ∧
    Settled e' ∧ (∀ i ∈ (s'.store.typeOf r).outerVars, (s'.subst.get? i).isSome) ∧ Taken h s s' e'

def Waits (ρ : String → Option Val) (s : Session) (e : Expr) (el : Nat) (s' : Session) : Prop :=
  ∃ e', Residue ρ (varsAll [e]) s [e] s' [el] [e'] ∧ e'.value? ρ = e.value? ρ ∧ ∀ v, e' ≠ .lit v

/-- The expression has no value that the hint accepts, if the way is clear. -/
def Refused (env : Scope) (ρ : String → Option Val) (h : Hint) (s : Session) (e : Expr) : Prop :=
  Clear env ρ s [e] → ∀ v, e.value? ρ = some v → ¬ h.Accepts s.subst v

lemma refused_void : Refused env ρ .void s e ↔ (Clear env ρ s [e] → e.value? ρ = none) := by
  refine ⟨fun hr hc => ?_, fun hn hc v hv => ?_⟩
  · rw [Option.eq_none_iff_forall_ne_some]
    exact fun v hv => hr hc v hv trivial
  · rw [hn hc] at hv
    cases hv

lemma Refused.of_void (hr : Refused env ρ .void s e) : Refused env ρ h s e :=
  fun hc v hv _ => hr hc v hv trivial

def Outcome (env : Scope) (ρ : String → Option Val) (h : Hint) (s : Session) (e : Expr) :
    Except Failure Nat → Session → Prop
  | .ok r, s' => Done ρ h s e r s'
  | .error (.unresolved el), s' =>
    s'.lenient = s.lenient ∧ Refused env ρ .void s e ∧ (s.lenient → Waits ρ s e el s')
  | .error _, _ => Refused env ρ h s e

/-- The steps resolve expressions up to a depth, and the names of operators. -/
structure Handles (steps : Steps) (env : Scope) (ρ : String → Option Val) (d : Nat) : Prop where
  resolve : ∀ s id e h, Fine s → Good ρ s [id] [e] → e.depth ≤ d →
  (∀ n ∈ e.symbols, Agrees env ρ n) → (∀ k ∈ h.vars, 0 < k ∧ k ≤ s.subst.size ∧ k ∉ varsAll [e]) →
    Ends (steps.resolve env id h.ty) s (Outcome env ρ h s e)
  head : ∀ s id (op : Oper), s.store.content id = .name op.name none → 0 < d →
    Ends (steps.resolve env id .void) s fun r s' => r = .ok s.store.size ∧ s' = { s with store :=
      (s.store.alloc (.name op.name (some (.ofCallable op.callable))) (s.store.span id)).2 }

lemma Outcome.of_residue {el : Nat} {r : Except Failure Nat}
    (hres : Residue ρ (varsAll [e]) s [e] s₁ [el] [e']) (hvalue : e'.value? ρ = e.value? ρ)
    (hclear : e.value? ρ ≠ none → Undecided s [e] → Undecided s₁ [e'])
    (ho : Outcome env ρ .void s₁ e' r s₂) : Outcome env ρ .void s e r s₂ := by
  have hrefused (hr : Refused env ρ .void s₁ e') : Refused env ρ .void s e := fun hc v hv =>
    hr ⟨fun n hn => hc.defined n (hres.part.symbols hn), hclear (by simp [hv]) hc.undecided⟩ v
      (hvalue.trans hv)
  cases r with
  | ok r =>
    obtain ⟨e₂, hres₂, hvalue₂, hsettled, htyp, _⟩ := ho
    refine ⟨e₂, ?_, hvalue₂.trans hvalue, hsettled, htyp, trivial⟩
    simp only [Hint.vars, append_nil] at hres₂ ⊢
    exact hres.trans hres₂
  | error f =>
    cases f with
    | unresolved el =>
      obtain ⟨hlen, hr, hwaits⟩ := ho
      refine ⟨hlen.trans hres.grows.lenient, hrefused hr, fun hl => ?_⟩
      obtain ⟨e₂, hres₂, hvalue₂, hne⟩ := hwaits (hres.grows.lenient.trans hl)
      exact ⟨e₂, hres.trans hres₂, hvalue₂.trans hvalue, hne⟩
    | _ => exact hrefused ho

def Blocked (s : Session) (f : Failure) (s' : Session) : Prop :=
  ∀ el, f = .unresolved el → s.lenient = false ∧ s'.lenient = false

lemma Blocked.of_grows (hb : Blocked s₁ f s') (hg : Grows V s s₁) : Blocked s f s' := fun el hf =>
  ⟨hg.lenient ▸ (hb el hf).1, (hb el hf).2⟩

lemma Outcome.of_blocked (hb : Blocked s f s') (hr : Clear env ρ s [e] → e.value? ρ = none) :
    Outcome env ρ .void s e (.error f) s' := by
  have hrefused := refused_void.2 hr
  cases f with
  | unresolved el =>
    obtain ⟨hs, hs'⟩ := hb el rfl
    exact ⟨hs'.trans hs.symm, hrefused, fun hl => by simp [hs] at hl⟩
  | _ => exact hrefused

lemma Outcome.of_refused (hfinal : ∀ el, f ≠ .unresolved el) (hr : Refused env ρ h s e) :
    Outcome env ρ h s e (.error f) s' := by
  cases f with
  | unresolved el => exact absurd rfl (hfinal el)
  | _ => exact hr

/-- What trying to resolve an expression may come to, with a flag for success. -/
def Tried (env : Scope) (ρ : String → Option Val) (h : Hint) (s : Session) (e : Expr) :
    Except Failure (Nat × Bool) → Session → Prop
  | .ok (r, true), s' => Done ρ h s e r s'
  | .ok (el, false), s' => Refused env ρ .void s e ∧ Waits ρ s e el s'
  | .error f, s' => Refused env ρ h s e ∧ Blocked s f s'

lemma Outcome.refused (ho : Outcome env ρ h s e (.error f) s') : Refused env ρ h s e := by
  cases f with
  | unresolved el => exact ho.2.1.of_void
  | _ => exact ho

lemma Handles.tried (H : Handles steps env ρ d) (hs : Fine s) (hgood : Good ρ s [id] [e])
    (hd : e.depth ≤ d) (hsym : ∀ n ∈ e.symbols, Agrees env ρ n)
    (hh : ∀ k ∈ h.vars, 0 < k ∧ k ≤ s.subst.size ∧ k ∉ varsAll [e]) :
    Ends (resolveOrResidual steps env id h.ty) s (Tried env ρ h s e) := by
  refine .attempt_bind ((H.resolve s id e h hs hgood hd hsym hh).mono fun r s' ho => ?_)
  cases r with
  | ok r => exact .pure ho
  | error f =>
    have hrefused := ho.refused
    cases f with
    | unresolved el =>
      obtain ⟨hlen, hvoid, hwaits⟩ := ho
      cases hl : s'.lenient with
      | true =>
        refine .bind (Q := fun r t => r = .ok el ∧ t = s') ?_ ?_ (by simp)
        · unfold Run.residual
          refine .get_bind ?_
          simp only [hl]
          exact .pure ⟨rfl, rfl⟩
        · rintro a t ⟨ha, rfl⟩
          cases ha
          exact .pure ⟨hvoid, hwaits (hlen.symm.trans hl)⟩
      | false =>
        refine .bind (Q := fun r t => (∃ f, r = .error f) ∧ t = s') ?_ ?_ ?_
        · unfold Run.residual
          refine .get_bind ?_
          simp only [hl]
          exact .throw ⟨⟨_, rfl⟩, rfl⟩
        · rintro a t ⟨⟨f, hf⟩, _⟩
          cases hf
        · rintro f t ⟨_, rfl⟩
          exact ⟨hrefused, fun _ _ => ⟨hlen.symm.trans hl, hl⟩⟩
    | _ => exact .throw ⟨hrefused, nofun⟩

/-! ## Arguments in turn -/

/-- What unifying with the hint has done to arguments, all of which are resolved if the flag is set.
-/
def TakenAll (ρ : String → Option Val) (h : Hint) (s s' : Session) (es es' : List Expr)
    (ok : Bool) : Prop :=
  match h with
  | .void | .any => True
  | .text => ∀ v, .lit v ∈ es' → Folder.concat.admits v
  | .number k =>
    (ok → es' ≠ [] → (s'.subst.get? k).isSome) ∧
      ((∀ e ∈ es, ∃ n, e.value? ρ = some (.int n)) → Open s.subst k → Open s'.subst k)
  | .branch k => ok → es' ≠ [] → (s'.subst.get? k).isSome

def OutcomeAll (env : Scope) (ρ : String → Option Val) (h : Hint) (s : Session) (es : List Expr) :
    Except Failure (List Nat × Bool) → Session → Prop
  | .ok (ids', ok), s' => ∃ es', Residue ρ (varsAll es ++ h.vars) s es s' ids' es' ∧
      values ρ es' = values ρ es ∧
      (if ok then ∀ e' ∈ es', Settled e' else Clear env ρ s es → ∃ e ∈ es, e.value? ρ = none) ∧
      TakenAll ρ h s s' es es' ok
  | .error f, s' =>
      ((∀ k, h ≠ .branch k) → Clear env ρ s es → ¬ ∀ e ∈ es, ∃ v, e.value? ρ = some v ∧
      h.Accepts s.subst v) ∧ Blocked s f s'

lemma Settled.eq_lit {v : Val} (hs : Settled e) (hv : e.value? ρ = some v) : e = .lit v := by
  rcases hs with ⟨w, rfl⟩ | hs
  · simpa [value?] using hv
  · rw [hs.value?] at hv
    cases hv

lemma Tried.open_number {k : Nat} {n : Int64} (ht : Tried env ρ h s e (.ok (r, ok)) s₁)
    (hk : h = .number k) (hle : k ≤ s.subst.size) (hmem : k ∉ varsAll [e])
    (hn : e.value? ρ = some (.int n)) (ho : Open s.subst k) : Open s₁.subst k := by
  subst hk
  cases ok with
  | true =>
    obtain ⟨e', _, hvalue, hsettled, _, htaken⟩ := ht
    exact htaken.2 n (hsettled.eq_lit (hvalue.trans hn)) ho
  | false =>
    obtain ⟨_, e', hres, _⟩ := ht
    rwa [Open, hres.grows.frame k hle hmem]

lemma Tried.residue (ht : Tried env ρ h s e (.ok (r, ok)) s₁) :
    ∃ e', Residue ρ (varsAll [e] ++ h.vars) s [e] s₁ [r] [e'] ∧ e'.value? ρ = e.value? ρ ∧
      (∀ v, e' = .lit v → Taken h s s₁ e') ∧ (ok = true → Settled e' ∧ Taken h s s₁ e') ∧
      (ok = false → Clear env ρ s [e] → e.value? ρ = none) := by
  cases ok with
  | true =>
    obtain ⟨e', hres, hvalue, hsettled, _, htaken⟩ := ht
    exact ⟨e', hres, hvalue, fun _ _ => htaken, fun _ => ⟨hsettled, htaken⟩, nofun⟩
  | false =>
    obtain ⟨hrefused, e', hres, hvalue, hne⟩ := ht
    exact ⟨e', ⟨hres.grows.mono (by simp), hres.good, hres.part⟩, hvalue,
      fun v hv => absurd hv (hne v), nofun, fun _ => refused_void.1 hrefused⟩

lemma Tried.void_cases (ht : Tried env ρ .void s e (.ok (r, ok)) s₁) :
    ∃ e', Residue ρ (varsAll [e]) s [e] s₁ [r] [e'] ∧ e'.value? ρ = e.value? ρ ∧
    ((ok = true ∧ ∃ v, e' = .lit v) ∨
      e'.lit? = none ∧ (ok = true → Stuck e') ∧ (Clear env ρ s [e] → e.value? ρ = none)) := by
  cases ok with
  | true =>
    obtain ⟨e', hres, hvalue, hsettled, _⟩ := ht
    refine ⟨e', by simpa [Hint.vars] using hres, hvalue, ?_⟩
    exact hsettled.imp (fun h => ⟨rfl, h⟩) fun h => ⟨h.lit?, fun _ => h, fun _ => hvalue ▸ h.value?⟩
  | false =>
    obtain ⟨hrefused, e', hres, hvalue, hne⟩ := ht
    refine ⟨e', hres, hvalue, .inr ⟨?_, by simp, refused_void.1 hrefused⟩⟩
    cases e' with
    | lit v => exact absurd rfl (hne v)
    | _ => rfl

lemma TakenAll.nil : TakenAll ρ h s s [] [] true := by
  cases h with
  | void | any => trivial
  | text => simp [TakenAll]
  | number k => exact ⟨fun _ h => absurd rfl h, fun _ ho => ho⟩
  | branch k => exact fun _ h => absurd rfl h

lemma TakenAll.cons {oks : Bool} (ht : Tried env ρ h s e (.ok (r, ok)) s₁)
    (hh : ∀ k ∈ h.vars, k ≤ s.subst.size ∧ k ∉ varsAll [e])
    (hlit : ∀ v, e' = .lit v → Taken h s s₁ e')
    (hok : ok = true → Taken h s s₁ e') (hg : Grows V s₁ s₂)
    (htake : TakenAll ρ h s₁ s₂ es es' oks) :
    TakenAll ρ h s s₂ (e :: es) (e' :: es') (ok && oks) := by
  cases h with
  | void | any => trivial
  | text =>
    intro v hv
    rcases mem_cons.1 hv with rfl | hv
    · exact hlit v rfl v rfl
    · exact htake v hv
  | number k =>
    have hk := hh k (by simp [Hint.vars])
    refine ⟨fun hoks _ => hg.bound k (hok (by simp_all)).1, fun hints ho => ?_⟩
    obtain ⟨n, hn⟩ := hints e (by simp)
    exact htake.2 (fun e he => hints e (by simp [he])) (ht.open_number rfl hk.1 hk.2 hn ho)
  | branch k => exact fun hoks _ => hg.bound k (hok (by simp_all))

lemma Tried.accepts {v w : Val} (ht : Tried env ρ h s e (.ok (r, ok)) s₁)
    (hbranch : ∀ k, h ≠ .branch k) (hh : ∀ k ∈ h.vars, k ≤ s.subst.size ∧ k ∉ varsAll [e])
    (hv : e.value? ρ = some v)
    (hacc : h.Accepts s.subst v) (hw : h.Accepts s.subst w) : h.Accepts s₁.subst w := by
  cases h with
  | void | any | text => exact hw
  | number k =>
    have hk := hh k (by simp [Hint.vars])
    obtain ⟨⟨n, rfl⟩, ho⟩ := hacc
    exact ⟨hw.1, ht.open_number rfl hk.1 hk.2 hv ho⟩
  | branch k => exact absurd rfl (hbranch k)

lemma Handles.resolveAll (H : Handles steps env ρ d) (hs : Fine s) (hgood : Good ρ s ids es)
    (hd : depths es ≤ d) (hsym : ∀ n ∈ symbolsAll es, Agrees env ρ n)
    (hh : ∀ k ∈ h.vars, 0 < k ∧ k ≤ s.subst.size ∧ k ∉ varsAll es) :
    Ends (Run.resolveAll steps env h.ty ids) s (OutcomeAll env ρ h s es) := by
  induction ids generalizing s es with
  | nil =>
    cases es with
    | cons e es => exact absurd hgood.shows (by simp [ShowsAll])
    | nil => exact .pure ⟨[], ⟨.refl hs, .nil ρ s, .refl _ _⟩, rfl, by simp, .nil⟩
  | cons id ids ih =>
    cases es with
    | nil => exact absurd hgood.shows (by simp [ShowsAll])
    | cons e es =>
      obtain ⟨hge, hges, hdisj⟩ := hgood.uncons
      have hvars : varsAll (e :: es) = varsAll [e] ++ varsAll es := varsAll_append [e] es
      simp only [hvars, mem_append, not_or] at hh
      have hde : e.depth ≤ d ∧ depths es ≤ d := by simpa [depths] using hd
      have hsyme : ∀ n ∈ e.symbols, Agrees env ρ n := fun n hn => hsym n (by simp [symbolsAll, hn])
      have hsymes : ∀ n ∈ symbolsAll es, Agrees env ρ n :=
        fun n hn => hsym n (by simp [symbolsAll, hn])
      have hhe : ∀ k ∈ h.vars, k ≤ s.subst.size ∧ k ∉ varsAll [e] :=
        fun k hk => ⟨(hh k hk).2.1, (hh k hk).2.2.1⟩
      unfold Run.resolveAll
      refine .bind (H.tried hs hge hde.1 hsyme fun k hk => ⟨(hh k hk).1, hhe k hk⟩) ?_ ?_
      · rintro ⟨r, ok⟩ s₁ htried
        obtain ⟨e', hres, hvalue, hlit, hdone, hwaits⟩ := htried.residue
        have hapart : ∀ k ∈ varsAll es, k ∉ varsAll [e] ++ h.vars := fun k hk hk' => by
          rcases mem_append.1 hk' with hk' | hk'
          · exact hdisj hk' hk
          · exact (hh k hk').2.2.2 hk
        have hges₁ : Good ρ s₁ ids es := hges.grow hres.grows hapart
        have hclear : Clear env ρ s (e :: es) → Clear env ρ s₁ es := fun hc =>
          hc.uncons.2.grow hres.grows fun k hk => ⟨(hges.bounded k hk).2, hapart k hk⟩
        have hh₁ : ∀ k ∈ h.vars, 0 < k ∧ k ≤ s₁.subst.size ∧ k ∉ varsAll es := fun k hk =>
          ⟨(hh k hk).1, (hh k hk).2.1.trans hres.grows.size_le, (hh k hk).2.2.2⟩
        refine .bind (ih hres.grows.fine hges₁ hde.2 hsymes hh₁) ?_ ?_
        · rintro ⟨rs, oks⟩ s₂ ⟨es', hress, hvalues, hoks, htakens⟩
          refine .pure ⟨e' :: es', ?_, by simp [values, hvalue, hvalues], ?_, ?_⟩
          · refine hres.append hress (fun k hk => ?_) (fun k hk => (hh k hk).2.1) hdisj
            refine ⟨(hgood.bounded k hk).2, fun hk' => ?_⟩
            simp only [varsAll_append, mem_append] at hk
            exact hk.elim (hh k hk').2.2.1 (hh k hk').2.2.2
          · cases ok with
            | false => exact fun hc => ⟨e, by simp, hwaits rfl hc.uncons.1⟩
            | true =>
              cases oks with
              | false =>
                intro hc
                obtain ⟨a, ha, hnone⟩ := hoks (hclear hc)
                exact ⟨a, by simp [ha], hnone⟩
              | true => simpa using ⟨(hdone rfl).1, hoks⟩
          · exact .cons htried hhe hlit (fun h => (hdone h).2) hress.grows htakens
        · rintro f s₂ ⟨herr, hblocked⟩
          refine ⟨fun hbranch hc hall => ?_, hblocked.of_grows hres.grows⟩
          obtain ⟨v, hv, hacc⟩ := hall e (by simp)
          refine herr hbranch (hclear hc) fun e₂ he₂ => ?_
          obtain ⟨w, hw, hwacc⟩ := hall e₂ (by simp [he₂])
          exact ⟨w, hw, htried.accepts hbranch hhe hv hacc hwacc⟩
      · rintro f s₁ ⟨hrefused, hblocked⟩
        refine ⟨fun _ hc hall => ?_, hblocked⟩
        obtain ⟨v, hv, hacc⟩ := hall e (by simp)
        exact hrefused hc.uncons.1 v hv hacc

end Resolvent.Residual
