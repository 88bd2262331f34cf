import Resolvent.Proofs.Session.Elements

/-!
# Sessions stay orderly

Every step of a session keeps it orderly, and what resolving returns is complete.
-/

namespace Resolvent

open Run Operator Session List

/-! ## Complete elements -/

lemma Store.complete_of_children {st : Store} {r : Nat} (hres : (st.content r).isResolved)
    (hchildren : ∀ a ∈ (st.content r).children, st.Complete a) : st.Complete r :=
  complete_iff.2 ⟨hres, fun a ha => hchildren a (Content.visible_subset _ ha)⟩

lemma Operator.Declared.complete {scope : Scope} {st : Store} {l : LetScope}
    (h : Declared (fun _ st r => st.Complete r) scope st l) : ∀ d ∈ l.decls, st.Complete d := by
  induction h with
  | nil => simp
  | snoc _ hd _ ha _ ih =>
    refine forall_mem_append.2 ⟨ih, forall_mem_singleton.2 (Store.complete_of_children ?_ ?_)⟩
    · simp [hd, Content.isResolved]
    · simpa [hd, Content.children] using ha

/-- Elements are to fit the elements before them, and what resolving gives is to be complete. -/
def Regime.complete (catalog : Catalog) (whole : Prop) : Regime where
  catalog
  orderly := True
  whole
  bounded := False
  names _ := True
  done _ st r := st.Complete r
  typed _ _ _ := True
  founded := .inl trivial
  kept := Store.Complete.kept
  steady _ _ _ := trivial
  named _ := trivial
  data _ hres := Store.complete_of_children (hres trivial)
  call hc _ hargs _ := Store.complete_of_children (by simp [hc, Content.isResolved]) fun a ha =>
    (hargs a (by rwa [hc] at ha)).2
  scope := by
    intro scope st r c l tail hc _ _ hgroups hl htail _
    refine Store.complete_of_children (by simp [hc, Content.isResolved]) ?_
    rw [hc, Content.children, hgroups]
    simpa using forall_mem_append.2 ⟨hl.complete, fun a ha => (htail a ha).2⟩
  lambda := by
    intro scope st r c decls body params hc _ hop hgroups _ hbody _
    refine Store.complete_iff.2 ⟨by simp [hc, Content.isResolved], ?_⟩
    have hlambda : c.callable.op.isLambda := by rw [hop]; rfl
    rw [hc, Content.visible, if_pos hlambda, hgroups]
    simpa using fun a ha => (hbody a ha).2

namespace Regime

variable {catalog : Catalog} {whole : Prop} {s : Session}

lemma admits_complete (h : s.Orderly) (hwhole : whole → s.Whole) :
    (complete s.catalog whole).Admits s :=
  ⟨rfl, fun _ => h, hwhole, nofun⟩

lemma not_bounded_complete : ¬ (complete catalog whole).bounded := id

end Regime

/-! ## Evaluating calls -/

def Run.Caught {α : Type} (m : Run α) : Prop := ∀ s el, (m.exec s).1 ≠ .error (.unresolved el)

structure Steps.Lawful (G : Regime) (steps : Steps) : Prop where
  resolve : ∀ n, G.Handles (fun _ : Unit => steps) n
  eval : ∀ {s : Session} {scope : Scope} {id : Nat} {hint : Ty}, G.Admits s → id < s.store.size →
    G.Upholds 0 (fun _ : Unit => steps.eval scope id hint) s fun _ _ => True
  /-- The body of a function runs in a session that need not be as the regime asks. -/
  caught : ∀ (scope : Scope) (id : Nat) (hint : Ty), (steps.eval scope id hint).Caught
  evalCall : ∀ {s : Session} {scope : Scope} {id : Nat} {c : Call} {hint : Ty}, G.Admits s →
  id < s.store.size → (∀ a ∈ c.groups.flatten, a < s.store.size) →
    G.Upholds 0 (fun _ : Unit => steps.evalCall scope id c hint) s fun _ _ => True

namespace Regime

variable {G : Regime} {steps : Steps} {s : Session} {id : Nat} {scope : Scope} {c : Call}
  {hint : Ty} {ids decls : List Nat} {span : Span}

lemma upholds_within {α : Type} {inner : Session} {m : Run α} (hb : ¬ G.bounded) (h : G.Admits s)
    (hm : m.Caught) : G.Upholds 0 (fun _ : Unit => within inner m) s fun _ _ => True := by
  have hs (n : Nat) : G.Admits { s with nextStamp := n } :=
    ⟨h.catalog, h.orderly, fun hw => ⟨(h.whole hw).store, (h.whole hw).subst, (h.whole hw).catalog⟩,
      h.sound⟩
  refine .get_bind (.bind (.of_exec (n := 0) (P := fun _ _ => True) (r := .ok ()) rfl ⟨.refl _,
    hs _, rfl, fun hs => hs⟩ trivial) ?_)
  intro _ s₁ hs₁ _
  change G.Upholds 0
    (fun _ : Unit => ofExcept (m.exec { inner with nextStamp := s.nextStamp }).1) s₁ _
  have hcaught := hm { inner with nextStamp := s.nextStamp }
  cases hr : (m.exec { inner with nextStamp := s.nextStamp }).1 with
  | ok a => exact .pure hs₁.admits trivial
  | error e => exact .throw hs₁.admits (fun hbounded => absurd hbounded hb) fun el
      hel => absurd (hel ▸ hr) (hcaught el)

lemma upholds_reduced {r : Except EvalCause Val} (h : G.Admits s) :
    G.Upholds 0 (fun _ : Unit => reduced r span) s fun _ _ => True := by
  unfold reduced
  split
  · exact .pure h trivial
  · exact .throw_final h ⟨rfl, nofun⟩

lemma upholds_value (h : G.Admits s) (d : Definition) :
    G.Upholds 0 (fun _ : Unit => match d.val, d.callable with
    | some v, _ => pure v
    | none, some c => pure (.fn c)
    | none, none => throw (.unevaluable span)) s fun _ _ => True := by
  split
  · exact .pure h trivial
  · exact .pure h trivial
  · exact .throw_final h ⟨rfl, by simp⟩

section

variable (hl : steps.Lawful G)
include hl

lemma upholds_evalAll (h : G.Admits s) (hids : ∀ i ∈ ids, i < s.store.size) :
    G.Upholds 0 (fun _ : Unit => evalAll steps scope ids) s fun _ _ => True := by
  induction ids generalizing s with
  | nil => exact .pure h trivial
  | cons id ids ih =>
    refine .bind (hl.eval h (hids id (by simp))) fun v s₁ hs₁ _ => ?_
    refine .bind (ih hs₁.admits fun i hi => hs₁.lt_size (hids i (by simp [hi]))) fun vs s₂ hs₂ _ =>
      ?_
    exact .pure hs₂.admits trivial

lemma upholds_evalGroups {groups : List (List Nat)} (h : G.Admits s)
    (hids : ∀ i ∈ groups.flatten, i < s.store.size) :
    G.Upholds 0 (fun _ : Unit => evalGroups steps scope groups) s fun _ _ => True := by
  induction groups generalizing s with
  | nil => exact .pure h trivial
  | cons g groups ih =>
    simp only [flatten_cons, mem_append] at hids
    refine .bind (upholds_evalAll hl h fun i hi => hids i (.inl hi)) fun v s₁ hs₁ _ => ?_
    refine .bind (ih hs₁.admits fun i hi => hs₁.lt_size (hids i (.inr hi))) fun vs s₂ hs₂ _ => ?_
    exact .pure hs₂.admits trivial

lemma upholds_evalLast {v : Val} (h : G.Admits s) (hids : ∀ i ∈ ids, i < s.store.size) :
    G.Upholds 0 (fun _ : Unit => evalLast steps scope hint v ids) s fun _ _ => True := by
  induction ids generalizing s v with
  | nil => exact .pure h trivial
  | cons id ids ih =>
    refine .bind (hl.eval h (hids id (by simp))) fun v s₁ hs₁ _ => ?_
    exact ih hs₁.admits fun i hi => hs₁.lt_size (hids i (by simp [hi]))

lemma upholds_evalLogic {conjunction : Bool} (h : G.Admits s) (hids : ∀ i ∈ ids, i < s.store.size) :
    G.Upholds 0 (fun _ : Unit => evalLogic conjunction steps scope ids) s fun _ _ => True := by
  induction ids generalizing s with
  | nil => exact .pure h trivial
  | cons id ids ih =>
    refine .bind (hl.eval h (hids id (by simp))) fun v s₁ hs₁ _ => ?_
    refine .ite (fun _ => .pure hs₁.admits trivial) fun _ => ?_
    exact ih hs₁.admits fun i hi => hs₁.lt_size (hids i (by simp [hi]))

lemma caught_evalLast (v : Val) : (evalLast steps scope hint v ids).Caught := by
  induction ids generalizing v with
  | nil => exact fun _ _ => nofun
  | cons id ids ih =>
    intro s el
    change ((steps.eval scope id hint >>= fun v => evalLast steps scope hint v ids).exec s).1 ≠ _
    rw [exec_bind]
    have hcaught := hl.caught scope id hint s el
    split
    · next heq => exact ih _ _ _
    · next heq => rwa [heq] at hcaught

variable (hb : ¬ G.bounded)
include hb

lemma upholds_evalDecls {defs : List (String × Definition)} (h : G.Admits s)
    (hdecls : ∀ d ∈ decls, d < s.store.size) :
    G.Upholds 0 (fun _ : Unit => evalDecls steps scope defs decls) s fun _ _ => True := by
  induction decls generalizing s defs with
  | nil => exact .pure h trivial
  | cons decl decls ih =>
    obtain ⟨hdecl, hrest⟩ := forall_mem_cons.1 hdecls
    refine .bind (upholds_declArg (n := 0) h) ?_
    rintro ⟨name, arg⟩ s₁ hs₁ hcontent
    have harg : G.Within 0 s.store arg :=
      (Within.of_lt (n := 0) hb hdecl).child h hcontent (by simp [Content.children])
    refine .bind (hl.eval hs₁.admits (hs₁.lt_size harg.lt_size)) fun v s₂ hs₂ _ => ?_
    refine .bind (.ofExcept (n := 0) hs₂.admits fun _ => final_of_define) fun defs s₃ hs₃ _ => ?_
    exact ih hs₃.admits fun d hd => ((hs₁.trans hs₂).trans hs₃).lt_size (hrest d hd)

variable (hw : ¬ G.whole)

omit hb in
lemma upholds_evalCond (h : G.Admits s) (hargs : ∀ a ∈ c.groups.flatten, a < s.store.size) :
    G.Upholds 0 (fun _ : Unit => evalCond steps scope c hint) s fun _ _ => True := by
  have harg {i a : Nat} (ha : c.arg? i = some a) : a < s.store.size :=
    hargs a (Call.mem_flatten_of_mem_group (mem_of_mem_head? ha))
  refine .bind (upholds_needArg (n := 0) h) fun a s₀ hs₀ ha => ?_
  refine .bind (hl.eval hs₀.admits (hs₀.lt_size (harg ha))) fun v s₁ hs₁ _ => ?_
  split
  · next hbranch => exact hl.eval hs₁.admits ((hs₀.trans hs₁).lt_size (harg hbranch))
  · exact .pure hs₁.admits trivial

omit hb in
lemma upholds_evalApply (h : G.Admits s) (hid : id < s.store.size)
    (hargs : ∀ a ∈ c.groups.flatten, a < s.store.size) :
    G.Upholds 0 (fun _ : Unit => evalApply steps scope id c hint) s fun _ _ => True := by
  refine .bind (upholds_needArg (n := 0) h) fun a s₀ hs₀ ha => ?_
  have hlt : a < s₀.store.size :=
    hs₀.lt_size (hargs a (Call.mem_flatten_of_mem_group (mem_of_mem_head? ha)))
  refine .bind (hl.eval hs₀.admits hlt) fun v s₁ hs₁ _ => ?_
  have hs := hs₀.trans hs₁
  split
  · refine hl.evalCall hs₁.admits (hs.lt_size hid) fun a ha => hs.lt_size (hargs a ?_)
    obtain ⟨g, hmem, ha⟩ := mem_flatten.1 ha
    exact mem_flatten.2 ⟨g, mem_of_mem_drop hmem, ha⟩
  · exact .spanOf_bind (.throw_final hs₁.admits ⟨rfl, nofun⟩)

include hw

lemma upholds_evalBuiltin {b : Builtin} (h : G.Admits s) (hid : id < s.store.size)
    (hargs : ∀ a ∈ c.groups.flatten, a < s.store.size) (hop : c.callable.op = .builtin b) :
    G.Upholds 0 (fun _ : Unit => evalBuiltin b steps scope id c hint) s fun _ _ => True := by
  have hgroup (i : Nat) : ∀ a ∈ c.group i, a < s.store.size :=
    fun a ha => hargs a (Call.mem_flatten_of_mem_group ha)
  have hgroups : G.Upholds 0 (fun _ : Unit => evalGroups steps scope c.groups) s fun _ _ => True :=
    upholds_evalGroups hl h hargs
  refine .spanOf_bind ?_
  cases b with
  | and | or => exact upholds_evalLogic hl h (hgroup 0)
  | not | ok =>
    refine .bind (upholds_needArg (n := 0) h) fun a s₀ hs₀ ha => ?_
    refine .bind (hl.eval hs₀.admits (hs₀.lt_size (hgroup 0 a (mem_of_mem_head? ha))))
      fun v s₁ hs₁ _ => ?_
    exact .pure hs₁.admits trivial
  | cond => exact upholds_evalCond hl h hargs
  | fail | add | cat | append | merge | eq | lt | construct =>
    exact .bind hgroups fun vss s₁ hs₁ _ => upholds_reduced hs₁.admits
  | scope =>
    refine .bind (upholds_evalDecls hl hb h (hgroup 0)) fun defs s₁ hs₁ _ => ?_
    exact upholds_evalLast hl hs₁.admits fun a ha => hs₁.lt_size (hgroup 1 a ha)
  | lambda =>
    have hlambda : G.Upholds 0 (fun _ : Unit => resolveLambda steps scope id c) s fun _ _ => True :=
      (upholds_resolveLambda (hl.resolve 0) (fun hwhole => absurd hwhole hw) h (.of_lt hb hid)
        (fun a ha => .of_lt hb (hargs a ha)) (fun hwhole => absurd hwhole hw) hop).level hb
        fun _ _ _ => trivial
    refine .bind hlambda fun r s₁ hs₁ _ => .val?_bind ?_
    split
    · exact .pure hs₁.admits trivial
    · exact .throw_final hs₁.admits ⟨rfl, nofun⟩

lemma upholds_eval (h : G.Admits s) (hid : id < s.store.size)
    (hargs : ∀ a ∈ c.groups.flatten, a < s.store.size) :
    G.Upholds 0 (fun _ : Unit => Operator.eval steps scope id c hint) s fun _ _ => True := by
  have hgroups : G.Upholds 0 (fun _ : Unit => evalGroups steps scope c.groups) s fun _ _ => True :=
    upholds_evalGroups hl h hargs
  unfold Operator.eval
  split
  · next hop => exact upholds_evalBuiltin hl hb hw h hid hargs hop
  · refine .bind hgroups fun vss s₁ hs₁ _ => .get_bind ?_
    exact upholds_within hb hs₁.admits (caught_evalLast hl _)
  · exact upholds_evalApply hl h hid hargs
  · exact .bind hgroups fun vss s₁ hs₁ _ => .pure hs₁.admits trivial

/-! ## Evaluating elements -/

lemma upholds_evalContent (h : G.Admits s) (hid : id < s.store.size) :
    G.Upholds 0 (fun _ : Unit => evalContent steps scope id hint) s fun _ _ => True := by
  have hchild {content : Content} {a : Nat} (hc : s.store.content id = content)
    (ha : a ∈ content.children) : a < s.store.size :=
    ((Within.of_lt (n := 0) hb hid).child h hc ha).lt_size
  refine .get_bind ?_
  split
  · refine .bind (upholds_refsIn (n := 0) h) fun r s₁ hs₁ _ => ?_
    split
    · exact .pure hs₁.admits trivial
    · exact .throw_final hs₁.admits ⟨rfl, by simp⟩
  · exact .pure h trivial
  · next n d hc =>
    split
    · next d _ => exact .pure_bind (upholds_value h d)
    · refine .bind (.ofExcept (n := 0) h fun _ => final_of_lookup) fun found s₁ hs₁ _ => ?_
      split
      · next d _ => exact .pure_bind (upholds_value hs₁.admits d)
      · exact .throw_final hs₁.admits ⟨rfl, by simp⟩
  · next el hc => exact hl.eval h (hchild hc (by simp [Content.children]))
  · exact .pure h trivial
  · next args hc =>
    split
    · next last hlast => exact hl.eval h (hchild hc (mem_of_getLast? hlast))
    · exact .pure h trivial
  · refine .bind (hl.resolve 0 0 le_rfl s scope id _ h (fun hwhole => absurd hwhole hw)
      (fun hwhole => absurd hwhole hw) (.of_lt hb hid)) fun r s₁ hs₁ hr => ?_
    exact hl.eval hs₁.admits hr.1.lt_size
  · next c hc =>
    have hcall : G.Upholds 0 (fun _ : Unit => instantiate id c) s fun p st =>
      st.content p.1 = .call p.2 :=
      (upholds_instantiate (n := 0) h (.of_lt hb hid) hc).level hb fun _ _ hr => hr.2.1
    refine .bind hcall ?_
    rintro ⟨id, c⟩ s₁ hs₁ hc
    have hid : id < s₁.store.size := Store.lt_size_of_content_ne (by simp [hc])
    exact upholds_eval hl hb hw hs₁.admits hid fun a ha =>
      ((Within.of_lt (n := 0) hb hid).child hs₁.admits hc ha).lt_size

lemma upholds_evalStep (h : G.Admits s) (hid : id < s.store.size) :
    G.Upholds 0 (fun _ : Unit => evalStep steps scope id hint) s fun _ _ => True := by
  refine .attempt_bind (upholds_evalContent hl hb hw h hid) fun r s₁ hs₁ hr => ?_
  split
  · exact .spanOf_bind (.throw_final hs₁.admits ⟨rfl, nofun⟩)
  · exact .throw hs₁.admits hr.1 hr.2
  · exact .pure hs₁.admits trivial

end

lemma caught_evalStep : (evalStep steps scope id hint).Caught := by
  intro s el
  rw [evalStep, exec_attempt_bind]
  split
  · nofun
  · next e hne _ =>
    rintro ⟨⟩
    exact hne el rfl
  · nofun

end Regime

/-! ## The recursion -/

namespace Session

variable {s : Session} {id : Nat} {scope : Scope} {hint : Ty}

lemma lawful (catalog : Catalog) (fuel : Nat) :
    Steps.Lawful (.complete catalog False) ⟨resolveN fuel, evalN fuel, evalCallN fuel⟩ := by
  have hresolve (fuel n : Nat) := Regime.handles_stepsN (G := .complete catalog False) id fuel n
  induction fuel with
  | zero =>
    exact {
      resolve := hresolve 0
      eval h _ := .throw h nofun nofun
      caught _ _ _ _ _ := nofun
      evalCall h _ _ := .throw h nofun nofun }
  | succ fuel ih =>
    exact {
      resolve := hresolve (fuel + 1)
      eval h hid := Regime.upholds_evalStep ih id id h hid
      caught _ _ _ := Regime.caught_evalStep
      evalCall h hid hargs := Regime.upholds_eval ih id id h hid hargs }

lemma upholds_resolveN {whole : Prop} (fuel : Nat) (h : (Regime.complete s.catalog whole).Admits s)
    (hid : id < s.store.size) (hscope : whole → scope.Whole) (hhint : whole → hint.Whole) :
    (Regime.complete s.catalog whole).Upholds 0 (fun _ : Unit => resolveN fuel scope id hint) s
    fun r st => st.Complete r :=
  have hb : ¬ (Regime.complete s.catalog whole).bounded := Regime.not_bounded_complete
  (Regime.handles_stepsN hb fuel 0 0 le_rfl s scope id hint h hscope hhint (.of_lt hb hid)).mono
  fun _ _ hr => hr.2.1

lemma upholds_resolve {whole : Prop} (h : (Regime.complete s.catalog whole).Admits s)
    (hid : id < s.store.size) (hscope : whole → scope.Whole) (hhint : whole → hint.Whole) :
    (Regime.complete s.catalog whole).Upholds 0 (fun _ : Unit => resolve scope id hint) s
    fun r st => st.Complete r := by
  unfold resolve
  -- The budget is a large number, of which nothing has to be known.
  generalize stepBudget = budget
  exact .get_bind (upholds_resolveN (budget s) h hid hscope hhint)

lemma keeps_evalN (fuel : Nat) (h : s.Orderly) (hid : id < s.store.size) :
    Keeps (evalN fuel scope id hint) s fun _ _ => True :=
  have hs := Regime.admits_complete h False.elim
  ((lawful s.catalog fuel).eval hs hid).keeps trivial hs

lemma keeps_instantiate {c : Call} (h : c.At s id) :
    Keeps (instantiate id c) s fun p st => st.content p.1 = .call p.2 := by
  have hs := Regime.admits_complete h.orderly False.elim
  have hb : ¬ (Regime.complete s.catalog False).bounded := Regime.not_bounded_complete
  exact ((Regime.upholds_instantiate (n := 0) hs (.of_lt hb h.id_lt) h.content).keeps trivial
    hs).mono fun _ _ hr => hr.2.1

lemma keeps_arrange {ids : List Nat} (params : List Param) (h : s.Orderly)
    (hids : ∀ i ∈ ids, i < s.store.size) :
    Keeps (arrange params ids) s fun groups st => ∀ a ∈ groups.flatten, a < st.size := by
  have hs := Regime.admits_complete h False.elim
  have hb : ¬ (Regime.complete s.catalog False).bounded := Regime.not_bounded_complete
  refine (Regime.Upholds.keeps (n := 0) (Regime.upholds_arrange (l := 0) params hs fun i hi =>
    .of_lt hb (hids i hi)) trivial hs).mono ?_
  exact fun groups st hr a ha => (hr.2 a ha).lt_size

lemma keeps_resolve (h : s.Orderly) (hid : id < s.store.size) :
    Keeps (resolve scope id hint) s fun r st => st.Complete r :=
  have hs := Regime.admits_complete h False.elim
  (upholds_resolve hs hid False.elim False.elim).keeps trivial hs

lemma keeps_eval (h : s.Orderly) (hid : id < s.store.size) :
    Keeps (eval scope id hint) s fun _ _ => True := by
  unfold eval
  generalize stepBudget = budget
  exact Ends.get_bind (keeps_evalN (budget s) h hid)

lemma keeps_run (h : s.Orderly) (hid : id < s.store.size) :
    Keeps (run scope id hint) s fun _ _ => True := by
  refine .bind (keeps_resolve h hid) fun r s₁ hg₁ hr => ?_
  refine .bind (Ends.typeOf_bind (Ends.spanOf_bind (Keeps.solve hg₁.orderly (.realize _) _)))
    fun _ s₂ hg₂ _ => ?_
  exact keeps_eval hg₂.orderly (hg₂.lt_size hr.lt_size)

end Session

end Resolvent
