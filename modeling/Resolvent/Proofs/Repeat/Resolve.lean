import Resolvent.Proofs.Repeat.Scopes

/-!
# What resolving gives is firm

Calls at rest over firm arguments are firm, and so are tags and declarations of firm elements.
-/

namespace Resolvent

open Run Session

namespace Operator

variable {scope : Scope} {catalog : Catalog} {st : Store} {r : Nat} {c : Call}

lemma firm_of_rests (hc : st.content r = .call c) (hsig : c.sig.isSome)
    (hargs : ∀ a ∈ c.groups.flatten, a < st.size ∧ Firm scope catalog st a)
    (hrests : c.Rests catalog st) : Firm scope catalog st r := by
  refine firm_of_call hc hsig fun s scope' fuel hres hat => ?_
  have hlt (a : Nat) (ha : a ∈ c.groups.flatten) : a < st.size := (hargs a ha).1
  have hsteady (hop : c.callable.op.isLambda = false) :=
    hres.steady_args hat hop fun a ha => (hargs a ha).2
  have hgroup {i a : Nat} (ha : a ∈ c.group i) : a ∈ c.groups.flatten :=
    c.mem_flatten_of_mem_group ha
  cases hop : c.callable.op with
  | closure | apply | collect =>
    simp only [resolve, hop]
    exact yields_resolvePlain hres.orderly (hsteady (by rw [hop]; rfl))
  | builtin b =>
    simp only [resolve, hop]
    simp only [Call.Rests, hop] at hrests
    cases b with
    | scope | lambda => exact hrests.elim
    | and | or =>
      obtain ⟨hgroups, hne, hundropped⟩ := hrests
      exact yields_resolveLogic hat hgroups hne (fun a ha =>
        hsteady (by rw [hop]; rfl) a (hgroup ha))
        (hundropped.kept hres.kept fun a ha => hlt a (hgroup ha))
    | not =>
      obtain ⟨a, hgroups, hval, hinner⟩ := hrests
      have ha : a ∈ c.groups.flatten := by simp [hgroups]
      have hnegated : negated? s.store a = negated? st a := by
        rw [negated?, negated?, hres.kept.content_eq (hlt a ha)]
      refine yields_resolveNot hat hgroups (hsteady (by rw [hop]; rfl) a ha) ?_
        (by rwa [hnegated, hres.catalog])
      rw [hres.kept.val?_eq (hlt a ha), hval]
    | cond =>
      obtain ⟨a, groups, hgroups, hval⟩ := hrests
      refine yields_resolveCond hat hgroups (hsteady (by rw [hop]; rfl)) ?_
      rw [hres.kept.val?_eq (hlt a (by simp [hgroups])), hval]
    | ok | add | cat | eq | lt =>
      exact yields_resolveFold hat (hsteady (by rw [hop]; rfl)) (hrests.kept hres.kept hlt)
    | construct => exact yields_resolveConstruct hat (hsteady (by rw [hop]; rfl)) (hrests.kept
        hres.kept hlt)
    | fail | append | merge => exact yields_resolvePlain hres.orderly (hsteady (by rw [hop]; rfl))

end Operator

namespace Session

variable {s : Session} {id r el : Nat} {scope : Scope} {hint : Ty} {catalog : Catalog} {st : Store}
  {n : String} {args : List Nat}

lemma firm_tag (hc : st.content r = .tag n (some el)) (hfirm : Firm scope catalog st el) :
    Firm scope catalog st r := by
  refine firm_of_content (Store.lt_size_of_content_ne (by simp [hc])) fun s scope' fuel hr hsame =>
    .get_bind ?_
  rw [hc] at hsame
  have hsteady := hfirm.steady hr (by simp [Store.Sees, hsame, Content.visible,
    Content.children]) hr.like
  dsimp only
  rw [hsame]
  refine .bind (tries_resolveOrResidual hr.orderly hsteady) ?_ ?_
  · rintro _ s₁ hg₁ rfl
    rw [if_pos rfl]
    exact .pure_bind (.pure hg₁.orderly rfl)
  · rintro ⟨r', _⟩ s₁ ⟨⟩
    exact .ite (fun _ => .throw) fun _ => .bind .any fun _ _ _ => .throw

lemma firm_decl (hc : st.content r = .decl n args) (hfirm : ∀ a ∈ args, Firm scope catalog st a) :
    Firm scope catalog st r := by
  refine firm_of_content (Store.lt_size_of_content_ne (by simp [hc])) fun s scope' fuel hr hsame =>
    .get_bind ?_
  rw [hc] at hsame
  have hsteady (a : Nat) (ha : a ∈ args) :
    (stepsN fuel).Steady (s.store.ParamsWritten r) scope' s a :=
    (hfirm a ha).steady hr (by simpa [Store.Sees, hsame, Content.visible, Content.children]
      using ha) hr.like
  dsimp only
  rw [hsame]
  refine .bind (tries_resolveAll hr.orderly hsteady) ?_ ?_
  · rintro _ s₁ hg₁ rfl
    rw [if_pos rfl]
    exact .pure_bind (.pure hg₁.orderly rfl)
  · rintro ⟨rs, _⟩ s₁ ⟨⟩
    exact .ite (fun _ => .throw) fun _ => .bind .any fun _ _ _ => .throw

lemma firm_data (hcall : ∀ c, st.content r ≠ .call c) (hres : (st.content r).isResolved)
    (hchildren : ∀ a ∈ (st.content r).children, Firm scope catalog st a) :
    Firm scope catalog st r := by
  cases hc : st.content r with
  | literal v => exact firm_literal hc
  | call c => exact absurd hc (hcall c)
  | expr items => simp [hc, Content.isResolved] at hres
  | decl n args => exact firm_decl hc (by simpa [hc, Content.children] using hchildren)
  | name n d =>
    cases d with
    | none => simp [hc, Content.isResolved] at hres
    | some d => exact firm_name hc
  | tag n el =>
    cases el with
    | some el => exact firm_tag hc (hchildren el (by simp [hc, Content.children]))
    | none =>
      refine firm_of_content (Store.lt_size_of_content_ne (by simp [hc]))
        fun s scope' fuel hr hsame => .get_bind ?_
      rw [hsame, hc]
      exact .pure hr.orderly rfl

end Session

def Regime.firm (catalog : Catalog) : Regime where
  catalog
  orderly := True
  whole := False
  bounded := False
  names _ := True
  done scope st r := Firm scope catalog st r
  typed := NamesType
  founded := .inl trivial
  kept := Firm.kept
  steady := NamesType.kept
  named := id
  data hcall hres := firm_data hcall (hres trivial)
  call := Operator.firm_of_rests
  scope := Operator.firm_let
  lambda := Operator.firm_lambda

namespace Session

variable {s : Session} {id : Nat} {scope : Scope} {hint : Ty} {catalog : Catalog}

lemma firm_resolve (h : s.Orderly) (hid : id < s.store.size) :
    Keeps (resolve scope id hint) s fun r st => Firm scope s.catalog st r := by
  have hs : (Regime.firm s.catalog).Admits s := ⟨rfl, fun _ => h, nofun, nofun⟩
  have hb : ¬ (Regime.firm s.catalog).bounded := nofun
  refine Regime.Upholds.keeps (n := 0) ?_ trivial hs
  unfold resolve
  -- The budget is a large number, of which nothing has to be known.
  generalize stepBudget = budget
  refine .get_bind ?_
  exact (Regime.handles_stepsN hb (budget s) 0 0 le_rfl s scope id hint hs nofun nofun
    (.of_lt hb hid)).mono fun _ _ hr => hr.2.1

lemma Firm.yields_resolve {st : Store} (hfirm : Firm scope catalog st id) (hint : Ty)
    (h : Resumes scope catalog st id s scope (stepBudget s)) :
    Yields (s.store.ParamsWritten id) (resolve scope id hint) s fun a _ => a = id := by
  unfold resolve
  generalize stepBudget = budget at h ⊢
  exact .get_bind (hfirm s scope (budget s) hint h)

end Session

end Resolvent
