import Resolvent.Proofs.Session.History
import Resolvent.Proofs.Session.Termination

/-!
# What function literals wait for

A function literal keeps the definitions of the names that occur in its resolved body, and stays a
call while one of them is known by its type only.
-/

namespace Resolvent

open Run List

/-! ## Names of copies -/

mutual

/-- The names that occur in the form are in the set. -/
def Form.NamesIn (N : String → Prop) : Form → Prop
  | .literal _ _ | .tag _ none _ => True
  | .name n _ _ => N n
  | .tag _ (some f) _ => f.NamesIn N
  | .decl _ fs _ | .expr fs _ => Form.AllNamesIn N fs
  | .call _ groups _ _ => Form.GroupsNamesIn N groups

def Form.AllNamesIn (N : String → Prop) : List Form → Prop
  | [] => True
  | f :: fs => f.NamesIn N ∧ Form.AllNamesIn N fs

def Form.GroupsNamesIn (N : String → Prop) : List (List Form) → Prop
  | [] => True
  | fs :: groups => Form.AllNamesIn N fs ∧ Form.GroupsNamesIn N groups

end

namespace Store

variable {st : Store} {N : String → Prop} {n id : Nat}

lemma allNamesIn_iff {fs : List Form} : Form.AllNamesIn N fs ↔ ∀ f ∈ fs, f.NamesIn N := by
  induction fs with
  | nil => simp [Form.AllNamesIn]
  | cons f fs ih => simp [Form.AllNamesIn, ih]

lemma groupsNamesIn_iff {groups : List (List Form)} : Form.GroupsNamesIn N groups ↔ ∀ fs ∈ groups,
    Form.AllNamesIn N fs := by
  induction groups with
  | nil => simp [Form.GroupsNamesIn]
  | cons fs groups ih => simp [Form.GroupsNamesIn, ih]

lemma Shallow.namesIn_unfoldWithin (h : st.Shallow N n id) (depth : Nat) :
    (st.unfoldWithin depth id).NamesIn N := by
  induction depth generalizing id n with
  | zero => trivial
  | succ depth ih =>
    have hbelow (c : Nat) (hc : c ∈ (st.content id).children) :
      (st.unfoldWithin depth c).NamesIn N := ih (h.below hc)
    rw [unfoldWithin]
    cases hc : st.content id with
    | literal v => trivial
    | name m d => exact h.namesIn hc
    | tag m el =>
      rw [hc] at hbelow
      cases el with
      | none => trivial
      | some el => exact hbelow el (by simp [Content.children])
    | decl m args =>
      rw [hc] at hbelow
      exact allNamesIn_iff.2 (List.forall_mem_map.2 hbelow)
    | expr items =>
      rw [hc] at hbelow
      exact allNamesIn_iff.2 (List.forall_mem_map.2 hbelow)
    | call c =>
      rw [hc] at hbelow
      refine groupsNamesIn_iff.2 (List.forall_mem_map.2 fun g hg =>
        allNamesIn_iff.2 (List.forall_mem_map.2 fun a ha => ?_))
      exact hbelow a (mem_flatten.2 ⟨g, hg, ha⟩)

/-- All names of the store are in the set. -/
def NamesIn (st : Store) (N : String → Prop) : Prop := ∀ e ∈ st.elements.toList, e.content.NamesIn N

lemma NamesIn.alloc {c : Content} {span : Span} (h : st.NamesIn N) (hc : c.NamesIn N) :
    (st.alloc c span).2.NamesIn N := by
  intro e he
  simp only [Store.alloc, Array.toList_push, mem_append, mem_singleton] at he
  obtain he | rfl := he
  · exact h e he
  · exact hc

mutual

lemma NamesIn.insert {st : Store} (h : st.NamesIn N) : (f : Form) → f.NamesIn N →
    (st.insert f).2.NamesIn N
  | .literal _ _, _ | .tag _ none _, _ => h.alloc trivial
  | .name _ _ _, hf => h.alloc hf
  | .tag _ (some f) _, hf => (h.insert f hf).alloc trivial
  | .decl _ fs _, hf | .expr fs _, hf => (h.insertAll fs hf).alloc trivial
  | .call _ groups _ _, hf => (h.insertGroups groups hf).alloc trivial

lemma NamesIn.insertAll {st : Store} (h : st.NamesIn N) : (fs : List Form) → Form.AllNamesIn N fs →
    (st.insertAll fs).2.NamesIn N
  | [], _ => h
  | f :: fs, hfs => (h.insert f hfs.1).insertAll fs hfs.2

lemma NamesIn.insertGroups {st : Store} (h : st.NamesIn N) :
    (groups : List (List Form)) → Form.GroupsNamesIn N groups → (st.insertGroups groups).2.NamesIn N
  | [], _ => h
  | fs :: groups, hfs => (h.insertAll fs hfs.1).insertGroups groups hfs.2

end

lemma namesIn_extract {roots : List Nat} (h : ∀ r ∈ roots, st.Shallow N n r) :
    (st.extract roots).2.NamesIn N := by
  rw [extract_eq]
  exact NamesIn.insertAll (fun _ he => by cases he) _
    (allNamesIn_iff.2 (List.forall_mem_map.2 fun r hr => (h r hr).namesIn_unfoldWithin _))

end Store

/-! ## Capturing -/

/-- The scope has a value for the name, or does not define it. -/
def Scope.Settles (scope : Scope) (n : String) : Prop :=
  ∀ d, scope.lookup n = .ok (some d) → d.isKnown

instance (scope : Scope) (n : String) : Decidable (scope.Settles n) :=
  match h : scope.lookup n with
  | .ok (some d) => decidable_of_iff (d.isKnown) (by simp [Scope.Settles, h])
  | .ok none => isTrue (by simp [Scope.Settles, h])
  | .error _ => isTrue (by simp [Scope.Settles, h])

namespace Operator

variable {scope : Scope} {names bound : List String} {elements : List Element} {n : String}

lemma freeNames_spec (bound : List String) (elements : List Element) :
    ∀ n ∈ freeNames bound elements, Sigil.of? n = none ∧ n ∉ bound ∧ ∃ e ∈ elements, ∃ d,
    e.content = .name n d := by
  refine foldlRecOn (motive := fun names => ∀ n ∈ names, Sigil.of? n = none ∧ n ∉ bound ∧
    ∃ e ∈ elements, ∃ d,
    e.content = .name n d) elements _ (by simp) fun names hnames e he n hn => ?_
  split at hn
  · next m d hname =>
    split at hn
    · next hnew =>
      obtain hn | hn := mem_append.1 hn
      · exact hnames n hn
      · obtain rfl := mem_singleton.1 hn
        simp only [Bool.and_eq_true, Option.isNone_iff_eq_none, Bool.not_eq_true', contains_eq_mem,
          decide_eq_false_iff_not] at hnew
        exact ⟨hnew.1.1, hnew.1.2, e, he, d, hname⟩
    · exact hnames n hn
  · exact hnames n hn

lemma capture_of_settled (h : ∀ n ∈ names, Sigil.of? n = none ∧ scope.Settles n) :
    ∃ defs, capture scope names = .ok (defs, false) := by
  induction names with
  | nil => exact ⟨[], rfl⟩
  | cons n names ih =>
    obtain ⟨⟨hplain, hsettled⟩, hnames⟩ := forall_mem_cons.1 h
    obtain ⟨defs, hdefs⟩ := ih hnames
    have hlookup : scope.lookup n = .ok (scope.findSome? (·.get? n)) := by rw [Scope.lookup, hplain]
    cases hfound : scope.findSome? (·.get? n) with
    | none =>
      rw [hfound] at hlookup
      exact ⟨defs, by rw [capture, hlookup, hdefs]; rfl⟩
    | some d =>
      rw [hfound] at hlookup
      refine ⟨(n, d) :: defs, ?_⟩
      rw [capture, hlookup, hdefs]
      exact if_pos (hsettled d hlookup)

lemma exec_resolveLambda {steps : Steps} {s s' : Session} {id k : Nat} {c : Call}
    {params : List Param} {body : List Nat}
    (h : (lambdaParts steps scope id c).exec s = (.ok (params, body, true), s'))
    (hbody : ∀ r ∈ body, s'.store.Shallow (fun n => Sigil.of? n = none → n ∈ params.map (·.1) ∨
    scope.Settles n) k r) :
    ∃ f s'', (resolveLambda steps scope id c).exec s = (.ok s'.store.size, s'') ∧
      s''.store.content s'.store.size = .literal (.fn f) ∧ f.params = params := by
  have hnames := Store.namesIn_extract hbody
  obtain ⟨captured, hcapture⟩ : ∃ captured,
    capture scope (freeNames (params.map (·.1)) (s'.store.extract body).2.elements.toList) =
      .ok (captured, false) := by
    refine capture_of_settled fun n hn => ?_
    obtain ⟨hplain, hbound, e, he, d, hname⟩ := freeNames_spec _ _ n hn
    have hin := hnames e he
    rw [hname] at hin
    exact ⟨hplain, (hin hplain).resolve_left hbound⟩
  have hcaptured : (ofExcept
    (capture scope (freeNames (params.map (·.1)) (s'.store.extract body).2.elements.toList)) :
      Run (List (String × Definition) × Bool)).exec s' = (.ok (captured, false), s') := by
        rw [hcapture]; rfl
  rw [resolveLambda_eq, exec_bind_of_ok (rfl : (spanOf id).exec s = (.ok (s.store.span id), s)),
    exec_bind_of_ok h]
  dsimp only
  rw [if_pos rfl, exec_get_bind, exec_bind_of_ok hcaptured]
  refine ⟨_, _, rfl, Store.content_alloc_size _ _ _, ?_⟩
  simp [Callable.params, Ty.args, Ty.func, Ty.params]

end Operator

/-! ## Function expressions -/

namespace Store

variable {st st' : Store} {N : String → Prop} {n id : Nat}

/-- The name occurs in the element or below it. -/
def Occurs (st : Store) (id : Nat) (name : String) : Prop :=
  ∃ x d, Relation.ReflTransGen st.Refers id x ∧ st.content x = .name name d

/-- The elements have their children among them, and names among the given ones. -/
def coversNames (st : Store) (ids : List Nat) (names : List String) : Bool :=
  ids.all fun id => (st.content id).children.all ids.contains && match st.content id with
    | .name n _ => names.contains n
    | _ => true

lemma Occurs.mem_of_covers {ids : List Nat} {names : List String} {name : String}
    (h : st.Occurs id name)
    (hcovers : st.coversNames ids names) (hid : id ∈ ids) : name ∈ names := by
  obtain ⟨x, d, hx, hd⟩ := h
  simp only [coversNames, List.all_eq_true, Bool.and_eq_true, contains_eq_mem, decide_eq_true_eq]
    at hcovers
  have hmem : x ∈ ids := by
    clear hd
    induction hx with
    | refl => exact hid
    | tail _ hstep ih => exact (hcovers _ ih).1 _ hstep
  have := (hcovers x hmem).2
  simpa [hd] using this

lemma Shallow.of_occurs (h : st.Shallow ⊤ n id) (hk : st.Kept st')
    (hN : ∀ name, st'.Occurs id name → N name) : st.Shallow N n id := by
  induction n generalizing id with
  | zero => exact h.elim
  | succ n ih =>
    have hcontent := hk.content_eq h.lt_size
    refine ⟨h.lt_size, ?_, fun c hc => ih (h.child rfl hc) fun name hname => hN name ?_⟩
    · cases hc : st.content id with
      | name m d => exact hN m ⟨id, d, .refl, hcontent.trans hc⟩
      | _ => trivial
    · obtain ⟨x, d, hx, hd⟩ := hname
      exact ⟨x, d, .head (by rwa [Refers, hcontent]) hx, hd⟩

end Store

namespace Session

open Operator

variable {s s' : Session} {scope : Scope} {id : Nat} {items body : List Nat} {c : Call}
  {params : List Param}

/-- The steps that resolving an element takes on its parts. -/
def partSteps (s : Session) : Steps :=
  ⟨resolveN (stepBudget s - 1), evalN (stepBudget s - 1), evalCallN (stepBudget s - 1)⟩

/-- The call that a function expression becomes, with the parts of the function. -/
def fnParts (steps : Steps) (scope : Scope) (id : Nat) (items : List Nat) :
    Run (Call × List Param × List Nat × Bool) := do
  let (el, c) ← callOf steps scope id items
  let parts ← lambdaParts steps scope el c
  return (c, parts)

lemma exec_resolve_expr {r : Nat} (hexpr : s.store.content id = .expr items)
    (h : (resolveExpr s.partSteps scope id items).exec s = (.ok r, s')) :
    (resolve scope id .void).exec s = (.ok r, s') := by
  have hbudget : stepBudget s = stepBudget s - 1 + 1 := by rw [stepBudget]; omega
  rw [resolve, exec_get_bind, hbudget, resolveN, resolveStep, exec_attempt_bind, resolveContent,
    exec_get_bind, hexpr]
  rw [partSteps] at h
  rw [h]
  rfl

/-- A function expression becomes a function value, if its parameter types and its body resolve, and
each name without a sigil that occurs in the body is one of a parameter, has a value in the scope or
is not defined there. -/
theorem resolve_lambda (hstore : s.store.Founded) (hsubst : s.subst.Sound)
    (hexpr : s.store.content id = .expr items)
    (hparts : (fnParts s.partSteps scope id items).exec s = (.ok (c, params, body, true), s'))
    (hop : c.callable.op = .builtin .lambda)
    (hnames : ∀ b ∈ c.group 1, ∀ n, s'.store.Occurs b n → Sigil.of? n = none →
    n ∈ params.map (·.1) ∨ scope.Settles n) :
    ∃ f s'', (resolve scope id .void).exec s = (.ok s'.store.size, s'') ∧
      s''.store.content s'.store.size = .literal (.fn f) ∧ f.params = params := by
  obtain ⟨⟨el, c'⟩, s₁, hcall, hparts⟩ := exec_bind_eq_ok hparts
  obtain ⟨⟨params', body', ok⟩, s₂, hlambda, hparts⟩ := exec_bind_eq_ok hparts
  obtain ⟨rfl, rfl, rfl, rfl, rfl⟩ : c' = c ∧ params' = params ∧ body' = body ∧ ok = true ∧
    s₂ = s' := by
    cases hparts
    exact ⟨rfl, rfl, rfl, rfl, rfl⟩
  -- The elements of the expression are less deep than the store has elements, and the steps handle
  -- that depth.
  have hid : id < s.store.size := by
    refine Store.lt_size_of_content_ne fun hempty => ?_
    cases hexpr.symm.trans hempty
    cases hcall
  obtain ⟨m, hm⟩ : ∃ m, s.store.size = m + 1 := ⟨s.store.size - 1, by omega⟩
  let steps : { steps : Steps // steps.Recursive m } :=
    ⟨s.partSteps, .ofFuel (by rw [stepBudget]; omega)⟩
  have hR {N : String → Prop} : (Regime.shallow s.catalog N).Handles
    (fun i : { steps : Steps // steps.Recursive m } => i.1) m := Regime.handles_recursive trivial m
  have hwithin : (Regime.shallow s.catalog ⊤).Within (m + 1) s.store id :=
    ⟨hid, fun _ => hm ▸ hstore.shallow hid⟩
  have hadmits : (Regime.shallow s.catalog ⊤).Admits s := Regime.admits_shallow hsubst
  obtain ⟨hs₁, hel, hcontent, -⟩ :=
    (Regime.upholds_callOf hR False.elim hadmits fun i hi => hwithin.child hadmits hexpr hi).of_ok
      (i := steps) hcall
  have hargs : ∀ a ∈ c'.groups.flatten, (Regime.shallow s.catalog ⊤).Within m s₁.store a :=
    fun a ha => hel.child hs₁.admits hcontent ha
  obtain ⟨ps, s₃, hps, hrest⟩ := exec_bind_eq_ok hlambda
  obtain ⟨⟨rs, ok⟩, s₄, hrs, hpure⟩ := exec_bind_eq_ok hrest
  cases hpure
  obtain ⟨hs₃, -⟩ := (Regime.upholds_resolveParams hR False.elim hs₁.admits hel
    fun d hd => hargs d (c'.mem_flatten_of_mem_group hd)).of_ok (i := steps) hps
  have hgroup := hs₃.within fun b hb => hargs b (c'.mem_flatten_of_mem_group (i := 1) hb)
  obtain ⟨hs₄, -⟩ :=
    (Regime.upholds_resolveAll hR False.elim hs₃.admits False.elim hgroup).of_ok (i := steps) hrs
  -- No name comes in while the body is resolved.
  have hadmits₃ : (Regime.shallow s.catalog fun n => Sigil.of? n = none → n ∈ params'.map (·.1) ∨
    scope.Settles n).Admits s₃ := ⟨hs₃.admits.catalog, False.elim, False.elim, hs₃.admits.sound⟩
  obtain ⟨-, htried⟩ :=
    (Regime.upholds_resolveAll hR False.elim hadmits₃ False.elim fun b hb => ⟨(hgroup b hb).lt_size,
    fun _ => ((hgroup b hb).shallow trivial).of_occurs hs₄.store (hnames b hb)⟩).of_ok (i :=
    steps) hrs
  have hbody := fun r hr => (htried.within r hr).shallow trivial
  obtain ⟨f, s'', hexec, hf⟩ := exec_resolveLambda hlambda hbody
  refine ⟨f, s'', exec_resolve_expr hexpr ?_, hf⟩
  rw [resolveExpr_eq, exec_bind_of_ok hcall]
  dsimp only
  rw [Operator.resolve, hop]
  exact hexec

/-- A scope that knows `x` and `y` by their types only, and `k` by its value. -/
def typedScope : Scope :=
  [.locals [("x", .typed .int), ("y", .typed .int), ("k", .ofVal (.int 5))], .catalog .builtins]

lemma fnParts_local : let s := opened "(fn +y int + (let +z y + (add z k)))"
    (match s.store.content 13, (fnParts s.partSteps typedScope 13 [0, 2, 3, 12]).exec s with
      | .expr [0, 2, 3, 12],
          (.ok (⟨⟨_, .builtin .lambda, _⟩, [_, [12]], _⟩, params, _, true), s') =>
        params.map (·.1) == ["y"] && s'.store.coversNames [4, 5, 6, 7, 8, 9, 10, 11, 12] ["let",
          "y", "z", "add", "k"]
      | _, _ => false) = true := by
  decide +kernel

/-- The parameter `y` is not waited for, nor is `z`, which nothing else defines. -/
theorem resolve_lambda_local :
    ∃ r f s', (resolve typedScope 13 .void).exec (opened "(fn +y int + (let +z y + (add z k)))") =
    (.ok r, s') ∧ s'.store.content r = .literal (.fn f) ∧ f.params.map (·.1) = ["y"] := by
  have hgrown := grown_opened "(fn +y int + (let +z y + (add z k)))"
  have hparts := fnParts_local
  dsimp only at hparts
  split at hparts
  · next params _ s' hexpr hexec =>
    simp only [Bool.and_eq_true, beq_iff_eq] at hparts
    obtain ⟨hparams, hcovers⟩ := hparts
    have hsettles : ∀ n ∈ ["let", "y", "z", "add", "k"], n ∈ ["y"] ∨ typedScope.Settles n := by
      decide +kernel
    have hnames : ∀ n, s'.store.Occurs 12 n → n ∈ params.map (·.1) ∨ typedScope.Settles n :=
      fun n hn => hparams ▸ hsettles n (hn.mem_of_covers hcovers (by decide))
    obtain ⟨f, s'', hresolve, hf, hfparams⟩ :=
      resolve_lambda hgrown.orderly.founded (hgrown.subst .empty) hexpr hexec rfl
      fun b hb n hn _ => hnames n (List.mem_singleton.1 hb ▸ hn)
    exact ⟨_, f, s'', hresolve, hf, by rw [hfparams, hparams]⟩
  · cases hparts

lemma match_resolve_bound :
    (match (resolve typedScope 10 .void).exec (opened "(fn +y int + (let +x y + x))") with
    | (.ok r, s') =>
      match s'.store.content r with
      | .call ⟨⟨_, .builtin .lambda, _⟩, _, _⟩ => true
      | _ => false
    | _ => false) = true := by
  decide +kernel

/-- The body uses `let` and the parameter only, since the `x` in it is bound there. The call still
waits for the `x` outside. -/
theorem waits_for_bound_name :
    ∃ r s' c, (resolve typedScope 10 .void).exec (opened "(fn +y int + (let +x y + x))") =
    (.ok r, s') ∧ s'.store.content r = .call c ∧ c.callable.op = .builtin .lambda := by
  have hresolve := match_resolve_bound
  split at hresolve
  · next r s' hexec =>
    split at hresolve
    · next hcall => exact ⟨r, s', _, hexec, hcall, rfl⟩
    · cases hresolve
  · cases hresolve

end Session

end Resolvent
