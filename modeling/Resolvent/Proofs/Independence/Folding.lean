import Resolvent.Proofs.Independence.Parts
import Resolvent.Proofs.Repeat.Again

/-!
# Folding a `let`

While it is resolved, a `let` with all values known is replaced by the value of its last body
element.
-/

namespace Resolvent

open Run Session Operator List Bool

namespace Session

variable {α β : Type} {s₀ s t u : Session} {steps : Steps} {scope : Scope}
  {defs next : List (String × Definition)}
  {decls ids init done : List Nat} {id d r n last : Nat} {hint result : Ty} {v : Val} {c : Call}

/-! ## Steps that give the same result everywhere -/

lemma Follows.exists_stepBudget (h : s₀.Follows s) : ∃ n, stepBudget s = n + 1 ∧
    s₀.store.size < n := by
  have hsize := h.store.size_le
  refine ⟨4 * s.store.size + 999999, by rw [stepBudget], ?_⟩
  omega

/-- A session that goes on from another one and has no references in its types. -/
structure Ready (s₀ s : Session) : Prop extends Follows s₀ s where
  whole : s.Whole

lemma Ready.admits (h : s₀.Ready s) : (Regime.complete s.catalog True).Admits s :=
  Regime.admits_complete h.orderly fun _ => h.whole

lemma Ready.ends {m : Run α} {P : α → Store → Prop} (h : s₀.Ready s)
    (hm : (Regime.complete s.catalog True).Upholds n (fun _ : Unit => m) s P) :
    Ends m s fun x t => s₀.Ready t ∧ Reports P x t.store := by
  have hkeeps := hm.keeps trivial h.admits
  obtain ⟨x, t, hexec, hgrows, -⟩ := hm
  obtain ⟨hgrown, hx⟩ := hkeeps.at_exec (hexec ())
  exact .of_exec (hexec ()) ⟨⟨⟨h.toGrown.trans hgrown, hgrown.subst h.sound⟩,
    hgrows.admits.whole trivial⟩, hx⟩

/-- With enough fuel the steps give the result in every session that goes on from the first one. -/
def Surely (s₀ : Session) (m : Nat → Run α) (a : α) : Prop :=
  ∀ ⦃u n⦄, s₀.Follows u → s₀.store.size < n → Ends (m n) u fun x u' => x = .ok a ∧ s₀.Follows u'

namespace Surely

variable {m : Nat → Run α} {k : Nat → α → Run β} {a : α} {b : β}

lemma pure (a : α) : s₀.Surely (fun _ => Pure.pure a) a := fun _ _ hu _ => ⟨rfl, hu⟩

lemma bind (h : s₀.Surely m a) (hk : s₀.Surely (fun n => k n a) b) :
    s₀.Surely (fun n => m n >>= k n) b := by
  intro u n hu hn
  refine .bind (h hu hn) ?_ (by simp)
  rintro _ u' ⟨⟨⟩, hu'⟩
  exact hk hu' hn

lemma exec (h : s₀.Surely m a) (hu : s₀.Follows u) (hn : s₀.store.size < n) :
    ∃ u', (m n).exec u = (.ok a, u') ∧ s₀.Follows u' := by
  obtain ⟨hx, hu'⟩ := h hu hn
  exact ⟨_, Prod.ext hx rfl, hu'⟩

end Surely

/-! ## Parts -/

/-- The element has been read, and is first-order. -/
def Part (s : Session) (scope : Scope) (id : Nat) : Prop :=
  ∃ f : Form, f.isFirstOrder scope.operator? ∧ s.store.Holds id f

/-- If the element declares a name with one argument, the name is no operator and the argument is a
part. -/
def DeclaresPart (s : Session) (scope : Scope) (d : Nat) : Prop :=
  ∀ name arg, s.store.content d = .decl name [arg] → scope.operator? name = none ∧ s.Part scope arg

lemma Part.lt_size (h : s₀.Part scope id) (hs : s₀.Follows s) : id < s.store.size := by
  obtain ⟨f, -, hheld⟩ := h
  exact hs.lt_size hheld.lt_size

section

variable (hcatalog : s₀.catalog.HasBuiltins) (hscope : scope.FirstOrder) (hliteral : scope.Literal)
  (hstart : s₀.Follows s₀)
include hcatalog hscope hliteral hstart

lemma Part.outcome_eq (h : s₀.Part scope id) (hdefs : scope.Values defs) (hs : s₀.Follows s)
    (hn : s₀.store.size < n) (hu : s₀.Follows u) :
    outcome (evalN n (.locals defs :: scope) id .void) s =
    outcome (eval (.locals defs :: scope) id .void) u := by
  obtain ⟨f, hf, hheld⟩ := h
  have hsize := size_alone_le hcatalog hscope hliteral hf hheld hstart
  obtain ⟨m, hm, hbudget⟩ := hu.exists_stepBudget
  have heval : outcome (eval (.locals defs :: scope) id .void) u =
      outcome (evalN (m + 1) (.locals defs :: scope) id .void) u := by
    rw [eval, outcome, outcome, exec_get_bind, hm]
  rw [heval, outcome_part hcatalog hscope hliteral hf hheld hs hdefs (hsize.trans_lt hn),
    outcome_part hcatalog hscope hliteral hf hheld hu hdefs
    ((hsize.trans_lt hbudget).trans m.lt_succ_self)]

lemma Part.surely (h : s₀.Part scope id) (hs : s₀.Follows s) (hdefs : scope.Values defs)
    (hn : s₀.store.size ≤ n)
    (hr : (resolveN n (.locals defs :: scope) id .void).exec s = (.ok r, t))
    (hv : t.store.val? r = some v) (hwhole : v.isWhole) :
    v.isGround ∧ t.declared r true = .ofVal v ∧
    s₀.Surely (fun n => evalN n (.locals defs :: scope) id .void) v := by
  obtain ⟨f, hf, hheld⟩ := h
  have hsize := size_alone_le hcatalog hscope hliteral hf hheld hstart
  obtain ⟨hground, hdeclared, halone⟩ :=
    known_part hcatalog hscope hliteral hf hheld hs hdefs (hsize.trans hn) hr hv hwhole
  refine ⟨hground, hdeclared, fun u m hu hm => ?_⟩
  have hout := (outcome_part hcatalog hscope hliteral hf hheld hu hdefs (hsize.trans_lt hm)).trans
    halone
  rcases hx : (evalN m (.locals defs :: scope) id .void).exec u with ⟨e | w, u'⟩ <;>
    rw [outcome, hx] at hout <;> cases hout
  have hid : id < u.store.size := hu.lt_size hheld.lt_size
  exact .of_exec hx ⟨rfl, hu.exec hx (keeps_evalN m hu.orderly hid)⟩

end

lemma ready_resolveN (hwhole : scope.Whole) (hs : s₀.Ready s) (hid : id < s.store.size)
    (hdefs : scope.Values defs)
    (hhint : hint.Whole) : Ends (resolveN n (.locals defs :: scope) id hint) s fun x t =>
      s₀.Ready t ∧ Reports (fun r st => st.Complete r) x t.store :=
  hs.ends (upholds_resolveN n hs.admits hid (fun _ => hdefs.whole hwhole) fun _ => hhint)

/-! ## Declarations -/

/-- The declarations have values, and give the same definitions in every session that goes on from
the first one. -/
structure Declares (s₀ : Session) (scope : Scope) (decls : List Nat)
    (defs : List (String × Definition)) : Prop where
  values : scope.Values defs
  eval : s₀.Surely (fun n => evalDecls (stepsN n) scope [] decls) defs

lemma evalDecls_append (steps : Steps) (scope : Scope) (defs : List (String × Definition))
    (ds es : List Nat) :
    evalDecls steps scope defs (ds ++ es) = evalDecls steps scope defs ds >>= fun defs =>
    evalDecls steps scope defs es := by
  induction ds generalizing defs with
  | nil => simp [evalDecls]
  | cons d ds ih => simp [evalDecls, ih]

lemma ends_declArg : Ends (declArg d) s fun x t => t = s ∧ ∀ p, x = .ok p →
    s.store.content d = .decl p.1 [p.2] := by
  refine .get_bind ?_
  split
  · next hc =>
    refine .pure ⟨rfl, ?_⟩
    rintro p ⟨⟩
    exact hc
  · exact .throw ⟨rfl, by simp⟩
  · exact .throw ⟨rfl, by simp⟩

lemma ends_resolveOrResidual : Ends (resolveOrResidual steps scope id hint) s fun x t =>
    ∀ r, x = .ok (r, true) → (steps.resolve scope id hint).exec s = (.ok r, t) := by
  rcases hx : (steps.resolve scope id hint).exec s with ⟨x, t⟩
  refine .attempt_bind (.of_exec hx ?_)
  split
  · rintro r ⟨⟩
    rfl
  · exact .bind (Q := fun _ _ => True) trivial (fun _ _ _ => .pure (by simp)) fun _ _ _ => by simp

lemma length_resolveLetBody :
    Ends (resolveLetBody steps scope result ids) s fun x _ => ∀ p, x = .ok p →
    p.1.length = ids.length := by
  induction ids generalizing s with
  | nil =>
    rintro p ⟨⟩
    rfl
  | cons id ids ih =>
    refine .bind (Q := fun _ _ => True) trivial (fun _ s₁ _ => .bind ih ?_ fun _ _ _ => by simp)
      fun _ _ _ => by simp
    rintro p s₂ hp _ ⟨⟩
    exact congrArg (· + 1) (hp p rfl)

/-- The declarations so far surely have values, and the session goes on from the one that they have
been read in. -/
structure Settled (s₀ : Session) (scope : Scope) (decls : List Nat)
    (defs : List (String × Definition)) (s : Session) : Prop
    extends Declares s₀ scope decls defs, Ready s₀ s

lemma Settled.nil (h : s₀.Ready s) : Settled s₀ scope [] [] s :=
  ⟨⟨by simp [Scope.Values], .pure _⟩, h⟩

lemma Declares.snoc {name : String} {arg : Nat} (h : Declares s₀ scope decls defs)
    (hc : s₀.store.content d = .decl name [arg]) (hop : scope.operator? name = none)
    (hground : v.isGround) (hwhole : v.isWhole)
    (hnext : Frame.define defs name (.ofVal v) = .ok next)
    (hv : s₀.Surely (fun n => evalN n (.locals defs :: scope) arg .void) v) :
    Declares s₀ scope (decls ++ [d]) next := by
  have hdecl : s₀.Surely (fun _ => declArg d) (name, arg) := by
    intro u n hu _
    refine .get_bind ?_
    rw [hu.store.content hc (by simp)]
    exact .pure ⟨rfl, hu⟩
  have hdefine : s₀.Surely (fun _ => ofExcept (Frame.define defs name (.ofVal v))) next := by
    intro u n hu _
    rw [hnext]
    exact .pure ⟨rfl, hu⟩
  refine ⟨?_, ?_⟩
  · unfold Frame.define at hnext
    split at hnext <;> cases hnext
    exact forall_mem_append.2 ⟨h.values, forall_mem_singleton.2 ⟨hop, v, rfl, hground, hwhole⟩⟩
  · simp only [evalDecls_append]
    exact h.eval.bind (hdecl.bind (hv.bind (hdefine.bind (.pure next))))

/-- The declarations surely have values, and below them the last body element surely has the given
one. -/
def Folds (s₀ : Session) (scope : Scope) (decls body : List Nat) (v : Val) : Prop :=
  ∃ defs, Declares s₀ scope decls defs ∧ ∃ last ∈ body.getLast?,
    s₀.Surely (fun n => evalN n (.locals defs :: scope) last .void) v

section

variable (hcatalog : s₀.catalog.HasBuiltins) (hscope : scope.FirstOrder) (hliteral : scope.Literal)
  (hwhole : scope.Whole) (hstart : s₀.Follows s₀) (hn : s₀.store.size ≤ n) {l : LetScope}
include hcatalog hscope hliteral hwhole hstart hn

lemma ends_resolveLetDecl (hlt : d < s₀.store.size) (hd : s₀.DeclaresPart scope d)
    (hl : l.known → l.resolved → Settled s₀ scope decls l.defs s) :
    Ends (resolveLetDecl (stepsN n) scope l d) s fun x t =>
      ∀ l', x = .ok l' → l'.known → l'.resolved → Settled s₀ scope (decls ++ [d]) l'.defs t := by
  refine .bind ends_declArg ?_ fun _ _ _ => by simp
  rintro ⟨name, arg⟩ _ ⟨rfl, hc⟩
  replace hc := hc _ rfl
  refine .bind ends_resolveOrResidual ?_ fun _ _ _ => by simp
  rintro ⟨r, ok⟩ s₁ hr
  refine .get_bind (.ofExcept_bind (fun next hnext => ?_) fun _ _ => by simp)
  -- Of the session nothing is known unless the declarations before have values, which the flags
  -- tell only in the end.
  have hsettled (hknown : (l.known && (!ok || (s₁.store.val? r).isSome)) = true)
    (hresolved : (l.resolved && ok) = true) :
      Settled s₀ scope (decls ++ [d]) next s₁ ∧ r < s₁.store.size := by
    obtain ⟨hlresolved, rfl⟩ := and_eq_true_iff.1 hresolved
    obtain ⟨hlknown, hsome⟩ := and_eq_true_iff.1 hknown
    obtain ⟨v, hv⟩ := Option.isSome_iff_exists.1 (by simpa using hsome)
    have hs := hl hlknown hlresolved
    have hexec := hr r rfl
    rw [hs.store.content_eq hlt] at hc
    obtain ⟨hop, harg⟩ := hd name arg hc
    have hvoid : Ty.void.Whole := .plain rfl
    obtain ⟨hready, hcomplete⟩ :=
      (ready_resolveN hwhole hs.toReady (harg.lt_size hs.toFollows) hs.values hvoid).at_exec hexec
    have hvwhole := hready.whole.store.val? hv
    obtain ⟨hground, hdeclared, hsurely⟩ :=
      harg.surely hcatalog hscope hliteral hstart hs.toFollows hs.values hn hexec hv hvwhole
    have hnext' : Frame.define l.defs name (.ofVal v) = .ok next := hdeclared ▸ hnext
    exact ⟨⟨hs.snoc hc hop hground hvwhole hnext' hsurely, hready⟩, hcomplete.lt_size⟩
  refine .ite (fun _ => ?_) fun _ => .spanOf_bind (.alloc_bind ?_)
  · rintro _ ⟨⟩ hknown hresolved
    exact (hsettled hknown hresolved).1
  · rintro _ ⟨⟩ hknown hresolved
    obtain ⟨h, hr⟩ := hsettled hknown hresolved
    have hwithin : (Regime.complete s₁.catalog True).Within 0 s₁.store r :=
      .of_lt Regime.not_bounded_complete hr
    exact ⟨h.toDeclares,
      (h.toReady.ends (.alloc (n := 0) h.toReady.admits (.decl (by simpa using hwithin)))).1⟩

lemma ends_resolveLetDecls (hdecls : ∀ d ∈ decls, d < s₀.store.size ∧ s₀.DeclaresPart scope d)
    (hl : l.known → l.resolved → Settled s₀ scope done l.defs s) :
    Ends (decls.foldlM (resolveLetDecl (stepsN n) scope) l) s fun x t =>
      ∀ l', x = .ok l' → l'.known → l'.resolved → Settled s₀ scope (done ++ decls) l'.defs t := by
  induction decls generalizing s l done with
  | nil =>
    rw [append_nil]
    rintro _ ⟨⟩
    exact hl
  | cons d decls ih =>
    obtain ⟨hlt, hpart⟩ := hdecls d (by simp)
    have hd := ends_resolveLetDecl hcatalog hscope hliteral hwhole hstart hn hlt hpart hl
    refine .bind hd (fun l' s₁ hl' => ?_) fun _ _ _ => by simp
    simpa using ih (fun e he => hdecls e (by simp [he])) (hl' l' rfl)

lemma ends_resolveLetBody (hdefs : scope.Values defs) (hresult : result.Whole)
    (hids : ∀ i ∈ ids, s₀.Part scope i) (hs : s₀.Ready s) :
    Ends (resolveLetBody (stepsN n) (.locals defs :: scope) result ids) s fun x t =>
      ∀ tail v, x = .ok (tail, true) → tail.getLast?.bind t.store.val? = some v →
        ∃ last ∈ ids.getLast?,
        s₀.Surely (fun n => evalN n (.locals defs :: scope) last .void) v := by
  induction ids generalizing s with
  | nil =>
    rintro tail v ⟨⟩ hv
    cases hv
  | cons id ids ih =>
    have hid := hids id (by simp)
    have hlt := hid.lt_size hs.toFollows
    cases ids with
    | nil =>
      -- The result of the call is expected of the last element, but has no part in what it is
      -- resolved to.
      refine .bind ends_resolveOrResidual ?_ fun _ _ _ => by simp
      rintro ⟨r, ok⟩ s₁ hr tail v hx hv
      obtain ⟨rfl, hok⟩ := Prod.mk.inj (Except.ok.inj hx)
      obtain rfl : ok = true := by simpa using hok
      have hexec := hr r rfl
      obtain ⟨hready, -⟩ := (ready_resolveN hwhole hs hlt hdefs hresult).at_exec hexec
      obtain ⟨t, hvoid, hstore⟩ := exec_resolveN_void hexec
      obtain ⟨-, -, hsurely⟩ :=
        hid.surely hcatalog hscope hliteral hstart hs.toFollows hdefs hn hvoid (hstore ▸ hv)
        (hready.whole.store.val? hv)
      exact ⟨id, rfl, hsurely⟩
    | cons next ids =>
      have hb : ¬ (Regime.complete s.catalog True).bounded := Regime.not_bounded_complete
      have hfirst := hs.ends
        (Regime.upholds_resolveOrResidual (l := 0) (Regime.handles_stepsN hb n 0)
        (fun _ => hdefs.whole hwhole) hs.admits Regime.whole_void (.of_lt hb hlt) le_rfl)
      refine .bind hfirst ?_ fun _ _ _ => by simp
      rintro ⟨r, ok⟩ s₁ ⟨hs₁, -⟩
      have hrest := ih (fun i hi => hids i (mem_cons_of_mem _ hi)) hs₁
      refine .bind (length_resolveLetBody.and hrest) ?_ fun _ _ _ => by simp
      rintro ⟨rs, oks⟩ s₂ ⟨hlength, hlast⟩ tail v hx hv
      obtain ⟨rfl, hok⟩ := Prod.mk.inj (Except.ok.inj hx)
      obtain ⟨r', rs', rfl⟩ := exists_cons_of_length_eq_add_one (hlength _ rfl)
      rw [getLast?_cons_cons] at hv ⊢
      exact hlast _ v (by simp_all) hv

lemma ends_resolveLet (hs : s₀.Ready s) (hat : c.At s id) (hc : c.Whole)
    (hop : c.callable.op = .builtin .scope)
    (hdecls : ∀ d ∈ c.group 0, d < s₀.store.size ∧ s₀.DeclaresPart scope d)
    (hbody : ∀ i ∈ c.group 1, s₀.Part scope i) :
    Ends (resolveLet (stepsN n) scope id c) s fun x t => ∀ r v, x = .ok r →
    t.store.content r = .literal v → Folds s₀ scope (c.group 0) (c.group 1) v := by
  have hends := ends_resolveLetDecls hcatalog hscope hliteral hwhole hstart hn (l := {}) hdecls
    fun _ _ => .nil hs
  have hadmits := Regime.admits_complete hs.orderly False.elim
  have hb : ¬ (Regime.complete s.catalog False).bounded := Regime.not_bounded_complete
  have hR := Regime.handles_stepsN hb n 0
  have hlaid : Keeps ((c.group 0).foldlM (resolveLetDecl (stepsN n) scope) {}) s fun l st =>
    ∀ d ∈ l.decls, d < st.size :=
    ((Regime.upholds_resolveLetDecls hR False.elim hadmits (fun _ hd => .of_lt hb (hat.group_lt hd))
      .nil).keeps trivial hadmits).mono fun _ _ hl d hd => (hl.within d hd).lt_size
  refine .spanOf_bind (.bind (Ends.and hlaid hends) ?_ fun _ _ _ => by simp)
  rintro l s₁ ⟨⟨hg₁, hdone⟩, hsettled⟩
  have hat₁ := hat.grown hg₁
  have hadmits₁ : (Regime.complete s.catalog False).Admits s₁ :=
    hg₁.catalog ▸ Regime.admits_complete hg₁.orderly False.elim
  have hends₁ (h : l.known = true ∧ l.resolved = true) :=
    have hl := hsettled l rfl h.1 h.2
    ends_resolveLetBody hcatalog hscope hliteral hwhole hstart hn hl.values hc.typ.result
    hbody hl.toReady
  have htried : Keeps (resolveLetBody (stepsN n) (.locals l.defs :: scope) c.typ.result (c.group 1))
    s₁ fun p st => ∀ a ∈ p.1, a < st.size :=
    ((Regime.upholds_resolveLetBody hR False.elim hadmits₁ False.elim fun _ hi =>
      .of_lt hb (hat₁.group_lt hi)).keeps trivial
      hadmits₁).mono fun _ _ hp a ha => (hp.within a ha).lt_size
  refine .bind (Ends.and htried (.imp hends₁)) ?_ fun _ _ _ => by simp
  rintro ⟨tail, ok⟩ s₂ ⟨⟨hg₂, htail⟩, hlast⟩
  refine .get_bind ?_
  dsimp only
  split
  · next w hw hknown =>
    rintro r v ⟨⟩ hr
    replace hr : (s₂.store.alloc (.literal w) (s.store.span id)).2.content s₂.store.size =
      .literal v := hr
    rw [Store.content_alloc_size] at hr
    cases hr
    simp only [and_eq_true] at hknown
    obtain ⟨hk, hr, rfl⟩ := hknown
    exact ⟨l.defs, (hsettled l rfl hk hr).toDeclares, hlast ⟨hk, hr⟩ tail w rfl hw⟩
  · have harity : c.callable.Takes [l.decls, tail] := .of_builtin hop rfl
    have hlt : ∀ a ∈ [l.decls, tail].flatten, a < s₂.store.size := by
      simpa using forall_mem_append.2 ⟨fun d hd => hg₂.lt_size (hdone d hd), htail⟩
    have hadmits₂ : (Regime.complete s.catalog False).Admits s₂ :=
      (hg₁.trans hg₂).catalog ▸ Regime.admits_complete hg₂.orderly False.elim
    have hat₂ := hat₁.grown hg₂
    refine Ends.mono ((Regime.upholds_finish (n := 0) hadmits₂ (.of_lt hb hat₂.id_lt) False.elim
      (fun _ _ => harity) fun a ha => .of_lt hb (hlt a ha)).keeps trivial hadmits₂) ?_
    rintro _ t ⟨-, hcall⟩ r v rfl hr
    cases (hcall.2.2.2 hat₂.content).symm.trans hr

end

/-! ## Calls -/

lemma ends_instantiate : Ends (instantiate id c) s fun x _ =>
    ∃ p, x = .ok p ∧ p.2.groups = c.groups ∧ p.2.callable = c.callable := by
  unfold instantiate
  split
  · exact ⟨_, rfl, rfl, rfl⟩
  · exact ⟨_, rfl, rfl, rfl⟩

lemma outcome_evalStep
    (h : ∀ el, ((evalContent steps scope id hint).exec s).1 ≠ .error (.unresolved el)) :
    outcome (evalStep steps scope id hint) s = outcome (evalContent steps scope id hint) s := by
  rw [evalStep, outcome, outcome, exec_attempt_bind]
  rcases hx : (evalContent steps scope id hint).exec s with ⟨e | v, t⟩
  · cases e with
    | unresolved el => exact absurd (by rw [hx]) (h el)
    | _ => rfl
  · rfl

section

variable (hcatalog : s₀.catalog.HasBuiltins) (hscope : scope.FirstOrder) (hliteral : scope.Literal)
include hcatalog hscope hliteral

lemma folds_of_resolve (hwhole : scope.Whole) (hs₀ : s₀.Ready s₀)
    (hc : s₀.store.content id = .call c)
    (hop : c.callable.op = .builtin .scope) (hdecls : ∀ d ∈ c.group 0, s₀.DeclaresPart scope d)
    (hbody : ∀ i ∈ c.group 1, s₀.Part scope i)
    (hresolve : (resolve scope id hint).exec s₀ = (.ok r, t))
    (hr : t.store.content r = .literal v) : Folds s₀ scope (c.group 0) (c.group 1) v := by
  obtain ⟨n, hn, hsize⟩ := hs₀.exists_stepBudget
  rw [resolve, exec_get_bind, hn, resolveN] at hresolve
  obtain ⟨t', hcontent, hstore⟩ := exists_exec_resolveContent hresolve
  have hends : Ends (resolveContent (stepsN n) scope id) s₀ fun x t => ∀ r v, x = .ok r →
    t.store.content r = .literal v → Folds s₀ scope (c.group 0) (c.group 1) v := by
    refine .get_bind ?_
    rw [hc]
    have hat : c.At s₀ id := ⟨hs₀.orderly, hc⟩
    have hready := hs₀.ends (Regime.upholds_instantiate (n := 0) hs₀.admits
      (.of_lt Regime.not_bounded_complete hat.id_lt) hc)
    refine .bind (hready.and ends_instantiate) ?_ fun _ _ _ => by simp
    rintro ⟨next, c'⟩ s₁ ⟨⟨hs₁, -, hnext, -⟩, _, ⟨⟩, hgroups, hcallable⟩
    have hwhole' : c'.Whole := by
      have hcontent := hs₁.whole.store next
      rwa [hnext] at hcontent
    have hgroup (i : Nat) : c'.group i = c.group i := by rw [Call.group, Call.group, hgroups]
    have hlet : Operator.resolve (stepsN n) scope next c' =
      resolveLet (stepsN n) scope next c' := by
      rw [Operator.resolve, hcallable, hop]
      rfl
    have hfolds := ends_resolveLet hcatalog hscope hliteral hwhole hs₀.toFollows hsize.le hs₁
      ⟨hs₁.orderly, hnext⟩ hwhole'
      (hcallable ▸ hop) (fun d hd => ⟨hat.group_lt (hgroup 0 ▸ hd), hdecls d (hgroup 0 ▸ hd)⟩)
      fun i hi => hbody i (hgroup 1 ▸ hi)
    rw [← hlet] at hfolds
    simpa only [hgroup] using hfolds
  exact hends.at_exec hcontent r v rfl (hstore ▸ hr)

lemma outcome_evalLast {w : Val} (hstart : s₀.Follows s₀) (hdefs : scope.Values defs)
    (hinit : ∀ i ∈ init, s₀.Part scope i)
    (hlast : s₀.Surely (fun n => evalN n (.locals defs :: scope) last .void) v)
    (hs : s₀.Follows s) (hn : s₀.store.size < n) (hu : s₀.Follows u) :
    outcome (evalLast (stepsN n) (.locals defs :: scope) .void w (init ++ [last])) s =
      (init.mapM fun i => outcome (eval (.locals defs :: scope) i .void) u).map fun _ => v := by
  induction init generalizing s w with
  | nil =>
    obtain ⟨s', hexec, -⟩ := hlast.exec hs hn
    rw [nil_append, evalLast, outcome, exec_bind_of_ok hexec]
    rfl
  | cons i init ih =>
    have hi := hinit i (by simp)
    have heq := hi.outcome_eq hcatalog hscope hliteral hstart hdefs hs hn hu
    rw [mapM_cons, ← heq, cons_append, evalLast, outcome, outcome, exec_bind]
    rcases hx : (evalN n (.locals defs :: scope) i .void).exec s with ⟨e | w', s'⟩
    · rfl
    · have hs' := hs.exec hx (keeps_evalN n hs.orderly (hi.lt_size hs))
      have hrest := ih (w := w') (fun j hj => hinit j (by simp [hj])) hs'
      refine hrest.trans ?_
      cases hrun : init.mapM fun i => outcome (eval (.locals defs :: scope) i .void) u <;> rfl

lemma outcome_eval_let (hstart : s₀.Follows s₀) (hc : s₀.store.content id = .call c)
    (hop : c.callable.op = .builtin .scope) (hdecls : Declares s₀ scope (c.group 0) defs)
    (hbody : init ++ [last] = c.group 1) (hinit : ∀ i ∈ init, s₀.Part scope i)
    (hlast : s₀.Surely (fun n => evalN n (.locals defs :: scope) last .void) v)
    (hu : s₀.Follows u) : outcome (eval scope id .void) u =
      (init.mapM fun i => outcome (eval (.locals defs :: scope) i .void) u).map fun _ => v := by
  obtain ⟨n, hn, hsize⟩ := hu.exists_stepBudget
  have hcu : u.store.content id = .call c := hu.store.content hc (by simp)
  rcases hi : (instantiate id c).exec u with ⟨x, u₁⟩
  obtain ⟨⟨next, c'⟩, rfl, hgroups, hcallable⟩ := ends_instantiate.at_exec hi
  have hu₁ := hu.exec hi (keeps_instantiate ⟨hu.orderly, hcu⟩)
  obtain ⟨u₂, hdefs, hu₂⟩ := hdecls.eval.exec hu₁ hsize
  have hexec : (evalContent (stepsN n) scope id .void).exec u =
      (evalLast (stepsN n) (.locals defs :: scope) .void .null (init ++ [last])).exec u₂ := by
    rw [evalContent, exec_get_bind]
    dsimp only
    rw [hcu]
    rw [exec_bind_of_ok hi]
    rw [Operator.eval, hcallable, hop]
    change (evalLet (stepsN n) scope c' .void).exec u₁ = _
    rw [evalLet, Call.group, Call.group, hgroups, ← Call.group, ← Call.group,
      exec_bind_of_ok hdefs, hbody]
  have hcaught (el : Nat) : ((evalContent (stepsN n) scope id .void).exec u).1 ≠
    .error (.unresolved el) := by
    rw [hexec]
    exact Regime.caught_evalLast (lawful u.catalog n) .null u₂ el
  calc outcome (eval scope id .void) u
    _ = outcome (evalStep (stepsN n) scope id .void) u := by
      rw [eval, outcome, outcome, exec_get_bind, hn, evalN]
    _ = outcome (evalContent (stepsN n) scope id .void) u := outcome_evalStep hcaught
    _ = outcome (evalLast (stepsN n) (.locals defs :: scope) .void .null (init ++ [last])) u₂ := by
      rw [outcome, outcome, hexec]
    _ = _ := outcome_evalLast hcatalog hscope hliteral hstart hdecls.values hinit hlast hu₂ hsize hu

end

/-- Evaluates the declarations of a `let`. -/
def declare (scope : Scope) (decls : List Nat) : Run (List (String × Definition)) := do
  evalDecls (stepsN (stepBudget (← get))) scope [] decls

lemma Reaches.follows (hs : s.Orderly) (hsound : s.subst.Sound) (hu : s.Reaches u)
    (hlenient : u.lenient = s.lenient) : s.Follows u := by
  obtain ⟨hkept, horderly, hcatalog⟩ := hu.kept hs
  exact ⟨⟨hkept, horderly, hcatalog, hlenient, hu.sound hs⟩, hu.sound hs hsound⟩

/-- A call of `let` that is resolved to a literal, with parts that are first-order and have just
been read. In every later session of the same mode the declarations have values. Evaluating the call
there fails if one of the body elements before the last does, for the reason of the first of them,
and else gives the value of the literal. -/
theorem eval_folded {catalog : Catalog} {mode : Bool} (hcatalog : catalog.HasBuiltins)
    (hs : (new catalog mode).Reaches s)
    (hwhole : s.Whole) (hscope : scope.FirstOrder) (hliteral : scope.Literal) (hnames : scope.Whole)
    (hc : s.store.content id = .call c) (hop : c.callable.op = .builtin .scope)
    (hdecls : ∀ d ∈ c.group 0, s.DeclaresPart scope d) (hbody : ∀ i ∈ c.group 1, s.Part scope i)
    (hresolve : (resolve scope id hint).exec s = (.ok r, t)) (hr : t.store.content r = .literal v)
    (hu : s.Reaches u) (hlenient : u.lenient = s.lenient) :
    ∃ defs, outcome (declare scope (c.group 0)) u = .ok defs ∧ outcome (eval scope id .void) u =
        ((c.group 1).dropLast.mapM fun i => outcome (eval (.locals defs :: scope) i .void) u).map
        fun _ => v := by
  obtain ⟨-, horderly, rfl⟩ := hs.kept (orderly_new catalog mode)
  have hstart : s.Follows s := .refl horderly (hs.sound (orderly_new _ _) .empty)
  have hfollows := hu.follows horderly hstart.sound hlenient
  obtain ⟨defs, hdeclares, last, hlast, hsurely⟩ :=
    folds_of_resolve hcatalog hscope hliteral hnames ⟨hstart,
      hwhole⟩ hc hop hdecls hbody hresolve hr
  have hinit : ∀ i ∈ (c.group 1).dropLast, s.Part scope i :=
    fun i hi => hbody i (List.dropLast_subset _ hi)
  refine ⟨defs, ?_, outcome_eval_let hcatalog hscope hliteral hstart hc hop hdeclares
    (List.dropLast_append_getLast? last hlast) hinit hsurely hfollows⟩
  obtain ⟨n, hn, hsize⟩ := hfollows.exists_stepBudget
  obtain ⟨u', hexec, -⟩ := hdeclares.eval.exec hfollows (hsize.trans n.lt_succ_self)
  rw [outcome, declare, exec_get_bind, hn, hexec]
  rfl

lemma step_resolve (hid : id < s.store.size) (h : (resolve scope id hint).exec s = (.ok r, t)) :
    s.Step t := by
  have hserve : (Request.resolve scope id hint).serve.exec s = (.ok [r], t) := exec_bind_of_ok h _
  have hstep := Step.serve (s := s) (.resolve scope id hint) (by simpa [Request.ids] using hid)
  rwa [hserve] at hstep

lemma holds_opened {source : String} {f : Form} (h : Form.read source = .ok [f]) :
    (opened source).store.Holds f.root f := by
  rw [opened, exec_read h]
  exact ⟨{}, rfl, .refl _⟩

lemma step_opened (source : String) : (new .builtins false).Step (opened source) :=
  .serve (.read source) (by simp [Request.ids])

def letSource : String := "(let +x +z (add y 1) + x (add x z))"

def letScope : Scope := [.locals [("y", .ofVal (.int 1))], .catalog .builtins]

def letSession : Session := ((Request.resolve letScope 13 .void).serve.exec (opened letSource)).2

lemma letSource_facts : 13 < (opened letSource).store.size ∧ (opened letSource).store.Whole ∧
    letScope.Whole ∧
    (∀ f ∈ letScope, f.isFirstOrder) ∧ (∀ n ∈ ["x", "z"], (letScope.operator? n).isNone) ∧
    (∀ f ∈ [Form.expr [.name "add" none .none, .name "y" none .none, .literal (.int 1) .none] .none,
    .name "x" none .none,
      .expr [.name "add" none .none, .name "x" none .none, .name "z" none .none] .none],
      f.isFirstOrder letScope.operator?) ∧ (match Form.read letSource with
      | .ok [.expr [.name _ none _, .decl _ [] _,
          .decl _ [.expr [.name a none _, .name y none _, .literal (.int n) _] _] _,
          .decl _ [] _, .name x none _,
          .expr [.name b none _, .name x' none _, .name z none _] _] _] =>
        a == "add" && y == "y" && n == 1 && x == "x" && b == "add" && x' == "x" && z == "z"
      | _ => false) = true := by
  decide +kernel

lemma step_letSession : (opened letSource).Step letSession :=
  .serve (.resolve _ _ _) (by simpa [Request.ids] using letSource_facts.1)

lemma reaches_letSession : (new .builtins false).Reaches letSession :=
  .tail (.single (step_opened _)) step_letSession

lemma whole_letSession : letSession.Whole := by
  obtain ⟨hlt, hstore, hscope, -⟩ := letSource_facts
  have hopened : (opened letSource).Whole :=
    whole_read (whole_new Catalog.whole_builtins false) hstore
  have hs : (Regime.complete (opened letSource).catalog True).Admits (opened letSource) :=
    Regime.admits_complete (grown_opened letSource).orderly fun _ => hopened
  obtain ⟨x, t, hexec, hgrows, -⟩ : (Regime.complete (opened letSource).catalog True).Upholds 0
      (fun _ : Unit => (Request.resolve letScope 13 .void).serve) (opened letSource) fun _ _ =>
        True :=
    .bind (upholds_resolve hs hlt (fun _ => hscope) fun _ => .plain rfl) fun _ _ hs₁ _ =>
      .pure hs₁.admits trivial
  rw [letSession, hexec ()]
  exact hgrows.admits.whole trivial

lemma match_letSession :
    (match letSession.store.content 13, letSession.store.content 15, letSession.store.content 6,
    letSession.store.content 16, (resolve letScope 16 .void).exec letSession with
      | .expr [0, 1, 6, 7, 8, 12], .decl x [5], .decl z [5],
          .call ⟨⟨_, .builtin .scope, _⟩, [[15, 6], [8, 12]], _⟩, (.ok r, t) =>
        x == "x" && z == "z" && r == 58 && t.lenient == letSession.lenient &&
        match t.store.content 58 with
          | .literal (.int n) => n == 4
          | _ => false
      | _, _, _, _, _ => false) = true := by
  decide +kernel

lemma content_letSession : letSession.store.content 13 = .expr [0, 1, 6, 7, 8, 12] ∧
    letSession.store.content 15 = .decl "x" [5] ∧ letSession.store.content 6 = .decl "z" [5] ∧
    (∃ c, letSession.store.content 16 = .call c ∧ c.callable.op = .builtin .scope ∧
    c.groups = [[15, 6], [8, 12]]) ∧
    ∃ t, (resolve letScope 16 .void).exec letSession = (.ok 58, t) ∧
    t.store.content 58 = .literal (.int 4) ∧ t.lenient = letSession.lenient := by
  have hmatch := match_letSession
  split at hmatch
  · next hexpr hx hz hcall hresolve =>
    simp only [and_eq_true, beq_iff_eq] at hmatch
    obtain ⟨⟨⟨⟨rfl, rfl⟩, rfl⟩, hlenient⟩, hmatch⟩ := hmatch
    split at hmatch
    · next n hcontent =>
      obtain rfl := beq_iff_eq.1 hmatch
      exact ⟨hexpr, hx, hz, ⟨_, hcall, rfl, rfl⟩, _, hresolve, hcontent, hlenient⟩
    · cases hmatch
  · cases hmatch

lemma part_letSession : ∀ i ∈ [5, 8, 12], letSession.Part letScope i := by
  have horderly : (opened letSource).Orderly := ((step_opened _).kept (orderly_new _ _)).2.1
  obtain ⟨hexpr, -, hdecl, -⟩ := content_letSession
  obtain ⟨-, -, -, -, -, hfirst, hforms⟩ := letSource_facts
  split at hforms
  · next hread =>
    simp only [and_eq_true, beq_iff_eq] at hforms
    obtain ⟨⟨⟨⟨⟨⟨rfl, rfl⟩, rfl⟩, rfl⟩, rfl⟩, rfl⟩, rfl⟩ := hforms
    have hheld : letSession.store.Holds 13 _ :=
      (holds_opened hread).kept (step_letSession.kept horderly).1
    obtain ⟨ids, hids, hitems⟩ := hheld.expr
    cases hexpr.symm.trans hids
    simp only [forall₂_cons] at hitems
    obtain ⟨-, -, hz, -, hx, hsum, -⟩ := hitems
    obtain ⟨args, hargs, harg⟩ := hz.decl
    cases hdecl.symm.trans hargs
    simp only [forall₂_cons] at harg
    simp only [forall_mem_cons] at hfirst ⊢
    refine ⟨⟨_, ?_, harg.1⟩, ⟨_, ?_, hx⟩, ⟨_, ?_, hsum⟩, by simp⟩
    · exact hfirst.1
    · exact hfirst.2.1
    · exact hfirst.2.2.1
  · cases hforms

/-- The two declarations have the same argument. The call is resolved to the sum of their values,
and evaluates to it. -/
theorem eval_folded_sum : ∃ c t defs, letSession.store.content 16 = .call c ∧
    c.groups = [[15, 6], [8, 12]] ∧ (resolve letScope 16 .void).exec letSession = (.ok 58, t) ∧
    t.store.content 58 = .literal (.int 4) ∧ outcome (declare letScope (c.group 0)) t = .ok defs ∧
    outcome (eval letScope 16 .void) t =
      ((c.group 1).dropLast.mapM fun i => outcome (eval (.locals defs :: letScope) i .void) t).map
      fun _ => .int 4 := by
  obtain ⟨-, hx, hz, ⟨c, hc, hop, hgroups⟩, t, hresolve, hliteral, hlenient⟩ := content_letSession
  obtain ⟨-, -, hscope, hframes, hnone, -⟩ := letSource_facts
  have hnames : letScope.Literal := by
    simp [Scope.Literal, letScope, Frame.Literal, Definition.ofVal]
  have hdeclares {d : Nat} {n : String} (hd : letSession.store.content d = .decl n [5])
    (hn : (letScope.operator? n).isNone) : letSession.DeclaresPart letScope d := by
    intro name arg hc
    cases hd.symm.trans hc
    exact ⟨Option.isNone_iff_eq_none.1 hn, part_letSession 5 (by simp)⟩
  have hdecls : ∀ d ∈ c.group 0, letSession.DeclaresPart letScope d := by
    rw [Call.group, hgroups]
    change ∀ d ∈ [15, 6], letSession.DeclaresPart letScope d
    simp only [List.forall_mem_cons]
    exact ⟨hdeclares hx (hnone _ (by simp)), hdeclares hz (hnone _ (by simp)), by simp⟩
  have hbody : ∀ i ∈ c.group 1, letSession.Part letScope i := by
    rw [Call.group, hgroups]
    exact fun i hi => part_letSession i (.tail _ hi)
  have hlt : 16 < letSession.store.size := Store.lt_size_of_content_ne (by simp [hc])
  obtain ⟨defs, hdefs, heval⟩ :=
    eval_folded .refl reaches_letSession whole_letSession (Scope.firstOrder_of_frames hframes)
    hnames hscope hc hop hdecls hbody hresolve hliteral
    (.single (step_resolve hlt hresolve)) hlenient
  exact ⟨c, t, defs, hc, hgroups, hresolve, hliteral, hdefs, heval⟩

/-- What a call is resolved to and what it evaluates to after that. A failure of a body element
before the last is lost, also in a `let` that is an argument of the call. A function literal gets
other type variables the second time. A reference in a type that stands for another reference is
replaced once while resolving, and once more while evaluating. -/
theorem folding_changes_outcome :
    let scope (defs : List (String × Definition)) : Scope := [.locals defs, .catalog .builtins]
    let list : Ty := .detailed .list "" [("", .detailed .ref "B" [] [])] []
    let schemas : Scope := [.catalog ((Catalog.builtins.addSchema "A" list).addSchema "B" .bool)]
    let after (scope : Scope) (id : Nat) (s : Session) : Session :=
      ((resolve scope id .void).exec s).2
    let lenient (source : String) : Session := ((read source).exec (new .builtins true)).2
    let text (r : Except Failure Val) : String :=
      match r with
      | .ok v => v.text
      | .error e => e.message
    let outcomes (scope : Scope) (id : Nat) (s : Session) : Option String × String :=
      match (resolve scope id .void).exec s with
      | (.ok r, t) => ((t.store.val? r).map Val.text, text (outcome (eval scope id .void) t))
      | (.error e, _) => (none, e.message)
    outcomes (scope [("y", .ofVal (.int 1))]) 15
    (after (scope []) 8 (lenient "(let +x y + (fail \"boom\") 2)")) =
      (some "2", "[0:0] fail boom") ∧ outcomes (scope [("y", .ofVal (.int 1))]) 22
    (after (scope []) 11 (lenient "(let +x y + (let + (fail \"boom\") x))")) =
      (some "1", "[0:0] fail boom") ∧
    outcomes (scope []) 13 (after (scope []) 11 (opened "(let +f (fn (append [])) + (str f))")) =
      (some "\"(func list|'7)\"", "\"(func list|'11)\"") ∧
    outcomes schemas 8 (after schemas 6 (opened "(let + (if true @A))")) =
    (some "list|@B", "list|bool") := by
  decide +kernel

end Session

end Resolvent
