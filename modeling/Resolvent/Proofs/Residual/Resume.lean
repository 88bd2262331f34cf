import Resolvent.Proofs.Residual.Value

/-!
# Resuming from a residual

A session that keeps going past unresolved elements reports a residual, which may be run later in a
scope with more definitions.
-/

namespace Resolvent

open List Option

lemma Builtin.mem_all (b : Builtin) : b ∈ all := by cases b <;> decide

lemma Catalog.callable?_builtins_eq_none {n : String} (h : ∀ b : Builtin, b.name ≠ n) :
    builtins.callable? n = none := by
  have hnames : builtins.callables.map (·.1) = (Builtin.all.map Builtin.name).reverse := rfl
  have hfind : builtins.callables.find? (fun p => p.1 == n) = none := by
    refine find?_eq_none.2 fun p hp heq => ?_
    have hmem : p.1 ∈ builtins.callables.map (·.1) := List.mem_map_of_mem hp
    rw [hnames, mem_reverse, List.mem_map] at hmem
    obtain ⟨b, _, hb⟩ := hmem
    exact h b (hb.trans (eq_of_beq heq))
  exact congrArg (Option.map (·.2)) hfind

namespace Residual

/-- A name without a sigil that is no builtin's. -/
def isSymbol (n : String) : Bool := (Sigil.of? n).isNone && Builtin.all.all (·.name != n)

def Oper.all : List Oper :=
  [.logic true, .logic false, .negation, .conditional, .fold .truth, .fold .sum, .fold .concat,
    .fold .equality, .fold .order]

def Oper.ofName? (n : String) : Option Oper := all.find? (·.name == n)

mutual

/-- The expression that a form spells, if it is built from scalars, symbols and calls of operators.
-/
def expr? : Form → Option Expr
  | .literal v _ => if v.isScalar then some (.lit v) else none
  | .name n none _ => if isSymbol n then some (.sym n) else none
  | .expr (.name n none _ :: args) _ => (Oper.ofName? n).bind fun op =>
    (exprs? args).map (.call op none)
  | _ => none

def exprs? : List Form → Option (List Expr)
  | [] => some []
  | f :: fs => (expr? f).bind fun e => (exprs? fs).map (e :: ·)

end

def scalar? (env : Scope) (n : String) : Option Val :=
  match env.lookup n with
  | .ok (some d) => d.val.filter (·.isScalar)
  | _ => none

/-- A scope over the builtin operators, where symbols stand for scalars if for anything. -/
structure OverBuiltins (env : Scope) : Prop where
  operators : ∀ op : Oper, env.lookup op.name = .ok (some (.ofCallable op.callable))
  scalars : ∀ n d, isSymbol n → env.lookup n = .ok (some d) → ∃ v : Val, v.isScalar ∧ d = .ofVal v

/-- The second scope keeps all definitions of the first. -/
def Extends (env env' : Scope) : Prop :=
  ∀ n d, env.lookup n = .ok (some d) → env'.lookup n = .ok (some d)

end Residual

/-- A session over the builtin operators that holds a form, with the number of the form. -/
def Session.holding (f : Form) (lenient : Bool) : Nat × Session :=
  ((Store.insert {} f).1, { new .builtins lenient with store := (Store.insert {} f).2 })

namespace Residual

open Residual.Expr Run

variable {ρ : String → Option Val} {env env₁ env₂ : Scope} {s : Session} {st st₁ : Store} {f : Form}
  {fs : List Form} {e : Expr}
  {es : List Expr} {n : String} {el : Nat} {defs : List (String × Val)} {ids : List Nat}

/-! ## Forms in a store -/

lemma Oper.name_of_ofName? {op : Oper} (h : ofName? n = some op) : op.name = n := by
  simpa using find?_some h

/-- The store has got elements that show the expressions and have not been visited. -/
structure Added (st st' : Store) (ids : List Nat) (es : List Expr) : Prop where
  kept : st.Kept st'
  shows : ShowsAll st' ids es
  size_le : st.size + depths es ≤ st'.size
  unmarked : markedAll es = []
  symbols : ∀ n ∈ symbolsAll es, isSymbol n

lemma Added.cons {st₂ : Store} {id : Nat} (h : Added st st₁ [id] [e]) (h' : Added st₁ st₂ ids es) :
    Added st st₂ (id :: ids) (e :: es) where
  kept := h.kept.trans h'.kept
  shows := ⟨h.shows.1.kept h'.kept, h'.shows⟩
  size_le := by
    have h₁ := h.size_le
    have h₂ := h'.size_le
    simp only [depths, Nat.max_zero] at h₁ ⊢
    omega
  unmarked := by
    have h₁ := h.unmarked
    simp only [markedAll] at h₁
    simp [markedAll, h₁, h'.unmarked]
  symbols n hn := by
    rw [symbolsAll, mem_append] at hn
    rcases hn with hn | hn
    · exact h.symbols n (by simpa [symbolsAll] using hn)
    · exact h'.symbols n hn

lemma Added.call (op : Oper) (hspan span : Span)
    (h : Added (st.alloc (.name op.name none) hspan).2 st₁ ids es) :
    Added st (st₁.alloc (.expr (st.size :: ids)) span).2 [st₁.size] [.call op none es] where
  kept := ((Store.Kept.alloc _ _ _).trans h.kept).trans (.alloc _ _ _)
  shows := by
    refine ⟨⟨ids, h.shows.kept (.alloc _ _ _), .inr ⟨st.size, by simp, ?_⟩⟩, trivial⟩
    exact (h.kept.trans (.alloc _ _ _)).content (Store.content_alloc_size _ _ _) nofun
  size_le := by
    have := h.size_le
    simp only [Store.size_alloc, depths, depth] at this ⊢
    omega
  unmarked := by simp [markedAll, marked, Oper.vars, h.unmarked]
  symbols := by simpa using h.symbols

mutual

lemma Added.insert (st : Store) (f : Form) {e : Expr} (h : expr? f = some e) :
    Added st (st.insert f).2 [(st.insert f).1] [e] := by
  match f with
  | .literal v span =>
    obtain ⟨hv, rfl⟩ : v.isScalar = true ∧ lit v = e := by simpa [expr?] using h
    rw [Store.insert]
    exact ⟨.alloc _ _ _, ⟨⟨hv, .inl (by simp)⟩, trivial⟩, by simp [depths, depth],
      rfl, by simp [symbolsAll, Expr.symbols]⟩
  | .name n none span =>
    obtain ⟨hn, rfl⟩ : isSymbol n = true ∧ sym n = e := by simpa [expr?] using h
    rw [Store.insert]
    refine ⟨.alloc _ _ _, ⟨Store.content_alloc_size _ _ _, trivial⟩, by simp [depths, depth], rfl,
      ?_⟩
    simpa [symbolsAll, Expr.symbols] using hn
  | .expr (.name n none hspan :: args) span =>
    obtain ⟨op, hop, h⟩ := bind_eq_some_iff.1 h
    obtain ⟨es, hes, rfl⟩ := map_eq_some_iff.1 h
    obtain rfl := Oper.name_of_ofName? hop
    exact .call op hspan span (Added.insertAll _ args hes)
  | .name _ (some _) _ | .tag _ _ _ | .decl _ _ _ | .call _ _ _ _ => simp [expr?] at h
  | .expr [] _ => simp [expr?] at h
  | .expr (.name _ (some _) _ :: _) _ | .expr (.literal _ _ :: _) _ | .expr (.tag _ _ _ :: _) _
  | .expr (.decl _ _ _ :: _) _ | .expr (.expr _ _ :: _) _ | .expr (.call _ _ _ _ :: _) _ =>
    simp [expr?] at h

lemma Added.insertAll (st : Store) (fs : List Form) {es : List Expr} (h : exprs? fs = some es) :
    Added st (st.insertAll fs).2 (st.insertAll fs).1 es := by
  match fs with
  | [] =>
    obtain rfl : [] = es := by simpa [exprs?] using h
    exact ⟨.refl _, trivial, le_rfl, rfl, by simp⟩
  | f :: fs =>
    obtain ⟨e, he, h⟩ := bind_eq_some_iff.1 h
    obtain ⟨es, hes, rfl⟩ := map_eq_some_iff.1 h
    exact (Added.insert st f he).cons (Added.insertAll _ fs hes)

end

/-! ## Scopes -/

lemma sigil_of_isSymbol (h : isSymbol n) : Sigil.of? n = none := by
  simpa using (Bool.and_eq_true_iff.1 h).1

lemma isSymbol_ne (h : isSymbol n) (b : Builtin) : b.name ≠ n := by
  simpa using List.all_eq_true.1 (Bool.and_eq_true_iff.1 h).2 b b.mem_all

lemma scalars_scalar? (env : Scope) : Scalars (scalar? env) := by
  intro n v h
  unfold scalar? at h
  split at h
  · exact (filter_eq_some_iff.1 h).2
  · cases h

lemma OverBuiltins.agrees (h₁ : OverBuiltins env₁) (hext : Extends env₁ env₂) (hn : isSymbol n) :
    Agrees env₁ (scalar? env₂) n := by
  have hplain := sigil_of_isSymbol hn
  cases hget : env₁.findSome? (·.get? n) with
  | none => exact .inl (by simp [Scope.lookup, hplain, hget])
  | some d =>
    have hlookup : env₁.lookup n = .ok (some d) := by simp [Scope.lookup, hplain, hget]
    obtain ⟨v, hv, rfl⟩ := h₁.scalars n d hn hlookup
    refine .inr ⟨v, hv, ?_, hlookup⟩
    simp [scalar?, hext n _ hlookup, Definition.ofVal, hv]

/-- The scope of scalars over the builtin operators. -/
def scopeOf (defs : List (String × Val)) : Scope :=
  [.locals (defs.map fun (n, v) => (n, .ofVal v)), .catalog .builtins]

lemma lookup_scopeOf (hn : Sigil.of? n = none) : (scopeOf defs).lookup n =
      .ok (((defs.find? (·.1 == n)).map fun p => .ofVal p.2).or
      ((Catalog.builtins.callable? n).map .ofCallable)) := by
  have hlocal : Frame.get? (.locals (defs.map fun (n, v) => (n, Definition.ofVal v))) n =
      (defs.find? (·.1 == n)).map fun p => .ofVal p.2 := by
    simp [Frame.get?, Frame.named?, Function.comp_def]
  have hcatalog : Frame.get? (.catalog .builtins) n =
    (Catalog.builtins.callable? n).map .ofCallable := by
    change Catalog.get? .builtins n = _
    unfold Catalog.get?
    split
    · next rest hrest => simp [Sigil.of?, hrest] at hn
    · rfl
  unfold Scope.lookup scopeOf
  simp only [hn, findSome?_cons, hlocal, hcatalog]
  cases (defs.find? (·.1 == n)).map fun p => Definition.ofVal p.2 <;>
    cases (Catalog.builtins.callable? n).map Definition.ofCallable <;> rfl

lemma OverBuiltins.scopeOf (h : ∀ p ∈ defs, isSymbol p.1 ∧ p.2.isScalar) :
    OverBuiltins (scopeOf defs) where
  operators op := by
    have hsigil : Sigil.of? op.name = none := by
      cases op with
      | logic c => cases c <;> decide
      | negation | conditional => decide
      | fold f => cases f <;> decide
    have hfind : defs.find? (·.1 == op.name) = none := by
      refine find?_eq_none.2 fun p hp heq => ?_
      exact isSymbol_ne (h p hp).1 op.builtin (eq_of_beq heq).symm
    simp [lookup_scopeOf hsigil, hfind, op.callable?_name]
  scalars n d hn hd := by
    have hsigil := sigil_of_isSymbol hn
    have hcatalog : Catalog.builtins.callable? n = none :=
      Catalog.callable?_builtins_eq_none (isSymbol_ne hn)
    rw [lookup_scopeOf hsigil, hcatalog] at hd
    cases hfind : defs.find? (·.1 == n) with
    | none => simp [hfind] at hd
    | some p =>
      refine ⟨p.2, (h p (mem_of_find?_eq_some hfind)).2, ?_⟩
      simpa [hfind] using hd.symm

lemma Extends.scopeOf_append (defs more : List (String × Val)) (h : ∀ p ∈ more, isSymbol p.1) :
    Extends (scopeOf defs) (scopeOf (defs ++ more)) := by
  intro n d hd
  cases hn : Sigil.of? n with
  | some sigil =>
    -- Names with a sigil are answered by the catalog alone.
    rw [Scope.lookup, hn] at hd ⊢
    exact hd
  | none =>
    rw [lookup_scopeOf hn] at hd ⊢
    rw [find?_append]
    cases hfind : defs.find? (·.1 == n) with
    | some p => simpa [hfind] using hd
    | none =>
      cases hmore : more.find? (·.1 == n) with
      | none => simpa [hfind] using hd
      | some p =>
        have hp : p.1 = n := by simpa using find?_some hmore
        have hsymbol := h p (mem_of_find?_eq_some hmore)
        rw [hfind, Catalog.callable?_builtins_eq_none (isSymbol_ne (hp ▸ hsymbol))] at hd
        cases hd

lemma clear_scalar? (h : Undecided s es) : Clear env (scalar? env) s es :=
  ⟨fun n _ hn hnone => hn (by simp [scalar?, hnone]), h⟩

/-! ## Running afresh and resuming -/

lemma good_holding (ρ : String → Option Val) (he : expr? f = some e) (lenient : Bool) :
    Fine (Session.holding f lenient).2 ∧
    Good ρ (Session.holding f lenient).2 [(Session.holding f lenient).1] [e] ∧
      Undecided (Session.holding f lenient).2 [e] ∧
      e.depth ≤ (Session.holding f lenient).2.store.size ∧ ∀ n ∈ e.symbols, isSymbol n := by
  have hadded := Added.insert {} f he
  have hvars : varsAll [e] = [] := by simp [varsAll, hadded.unmarked]
  refine ⟨⟨rfl, .empty, fun i b hb => by cases hb⟩, ⟨hadded.shows, ?_, ?_, ?_⟩, ?_, ?_, ?_⟩
  · simp [hvars]
  · simp [hvars]
  · simp [hadded.unmarked]
  · simp [Undecided, hadded.unmarked]
  · have := hadded.size_le
    simp only [depths] at this
    exact le_trans (by omega) this
  · simpa [symbolsAll] using hadded.symbols

lemma run_holding_iff (he : expr? f = some e) (h : OverBuiltins env) (lenient : Bool) (v : Val) :
    ((Session.run env (Session.holding f lenient).1 .void).exec (Session.holding f lenient).2).1 =
    .ok v ↔ e.value? (scalar? env) = some v := by
  obtain ⟨hfine, hgood, hundecided, hdepth, hsymbols⟩ := good_holding (scalar? env) he lenient
  have hrun := run_value (scalars_scalar? env) h.operators hfine hgood hdepth fun n hn =>
    h.agrees (fun _ _ h => h) (hsymbols n hn)
  exact ⟨hrun.1 v, hrun.2 (clear_scalar? hundecided) v⟩

/-- Running a residual of a form returns nothing but the meaning of the form, and returns that if
there are no conditionals or no type variable is bound. -/
lemma run_residual_value (he : expr? f = some e) (h₁ : OverBuiltins env₁) (h₂ : OverBuiltins env₂)
    (hext : Extends env₁ env₂) (hres : (Session.resolve env₁ (Session.holding f true).1 .void).exec
    (Session.holding f true).2 = (.error (.unresolved el), s)) :
    (∀ v, ((Session.run env₂ el .void).exec s).1 = .ok v → e.value? (scalar? env₂) = some v) ∧
    (e.hasConditional = false ∨ s.subst.bindings = [] → ∀ v, e.value? (scalar? env₂) = some v →
      ((Session.run env₂ el .void).exec s).1 = .ok v) := by
  have hρ := scalars_scalar? env₂
  obtain ⟨hfine, hgood, _, hdepth, hsymbols⟩ := good_holding (scalar? env₂) he true
  have hfirst := resolve_outcome hρ h₁.operators hfine hgood hdepth fun n hn =>
    h₁.agrees hext (hsymbols n hn)
  -- The residual stands for the form, so running it gives the same meaning.
  obtain ⟨e', hresidue, hvalue, _⟩ := (hfirst.at_exec hres).2.2 rfl
  have hsub : e'.symbols ⊆ e.symbols := by simpa [symbolsAll] using hresidue.part.symbols
  have hdepth' : e'.depth ≤ s.store.size := by
    have hle := hresidue.part.depths_le
    simp only [depths, Nat.max_zero] at hle
    exact (hle.trans hdepth).trans hresidue.grows.store.size_le
  have hrun := run_value hρ h₂.operators hresidue.grows.fine hresidue.good hdepth' fun n hn =>
    h₂.agrees (fun _ _ h => h) (hsymbols n (hsub hn))
  rw [← hvalue]
  refine ⟨hrun.1, fun hcases => hrun.2 (clear_scalar? ?_)⟩
  rcases hcases with hplain | hbindings
  · refine undecided_of_hasConditionals_eq_false (Bool.eq_false_iff.2 fun hc => ?_)
    simpa [hasConditionals, hplain] using hresidue.part.conditionals hc
  · intro p _ _
    simp [Subst.get?, hbindings]

/-- Running a residual of a form without conditionals returns a value if and only if running the
form afresh returns that value, which is then the meaning of the form. -/
theorem run_residual_iff_run (he : expr? f = some e) (hplain : e.hasConditional = false)
    (h₁ : OverBuiltins env₁) (h₂ : OverBuiltins env₂) (hext : Extends env₁ env₂)
    (hres : (Session.resolve env₁ (Session.holding f true).1 .void).exec
    (Session.holding f true).2 = (.error (.unresolved el), s)) :
    (∀ v, ((Session.run env₂ el .void).exec s).1 = .ok v ↔
      ((Session.run env₂ (Session.holding f false).1 .void).exec (Session.holding f false).2).1 =
      .ok v) ∧
    ∀ v, ((Session.run env₂ (Session.holding f false).1 .void).exec (Session.holding f false).2).1 =
    .ok v ↔ e.value? (scalar? env₂) = some v := by
  have hresumed := run_residual_value he h₁ h₂ hext hres
  have hfresh := run_holding_iff he h₂ false
  exact ⟨fun v => ⟨fun h => (hfresh v).2 (hresumed.1 v h),
    fun h => hresumed.2 (.inl hplain) v ((hfresh v).1 h)⟩, hfresh⟩

def residual? : Except Failure Nat → Option Nat
  | .error (.unresolved el) => some el
  | _ => none

lemma exists_of_residual? (x : Except Failure Nat × Session) (test : Nat → Session → Bool)
    (h : (residual? x.1).any (test · x.2)) : ∃ el s, x = (.error (.unresolved el), s) ∧
    test el s := by
  obtain ⟨r, s⟩ := x
  fun_cases residual? r <;> simp_all [residual?]

/-- The form `(and true (eq (add 1 2 x) 6) (not (not y)))`. -/
def sampleForm : Form :=
  let lit (v : Val) : Form := .literal v ⟨0, 0⟩
  let sym (n : String) : Form := .name n none ⟨0, 0⟩
  let call (op : Oper) (args : List Form) : Form := .expr (sym op.name :: args) ⟨0, 0⟩
  call (.logic true) [lit (.bool true),
    call (.fold .equality) [call (.fold .sum) [lit (.int 1), lit (.int 2), sym "x"], lit (.int 6)],
    call .negation [call .negation [sym "y"]]]

/-- With `y` known at first and `x` later, the residual of the form comes to its value. -/
theorem run_residual_sampleForm : ∃ el s,
    (Session.resolve (scopeOf [("y", .str "t")]) (Session.holding sampleForm true).1 .void).exec
      (Session.holding sampleForm true).2 = (.error (.unresolved el), s) ∧
    ((Session.run (scopeOf [("y", .str "t"), ("x", .int 3)]) el .void).exec s).1 =
    .ok (.bool true) := by
  obtain ⟨el, s, hres, -⟩ := exists_of_residual? ((Session.resolve (scopeOf [("y", .str "t")])
    (Session.holding sampleForm true).1 .void).exec (Session.holding sampleForm true).2) (fun _ _ =>
      true) (by decide +kernel)
  obtain ⟨e, he, hplain, hvalue⟩ : ∃ e, expr? sampleForm = some e ∧ e.hasConditional = false ∧
      e.value? (scalar? (scopeOf [("y", .str "t"), ("x", .int 3)])) = some (.bool true) :=
      ⟨_, rfl, rfl, rfl⟩
  have h := run_residual_iff_run he hplain (.scopeOf (by decide)) (.scopeOf (by decide))
    (.scopeOf_append [("y", .str "t")] [("x", .int 3)] (by decide)) hres
  exact ⟨el, s, hres, (h.1 _).2 ((h.2 _).2 hvalue)⟩

/-! ## Resuming with conditionals -/

/-- Running a residual of a form returns a value only if running the form afresh returns that value;
the other way round this holds if there are no conditionals or no type variable is bound. -/
theorem run_of_run_residual (he : expr? f = some e) (h₁ : OverBuiltins env₁)
    (h₂ : OverBuiltins env₂) (hext : Extends env₁ env₂)
    (hres : (Session.resolve env₁ (Session.holding f true).1 .void).exec
    (Session.holding f true).2 = (.error (.unresolved el), s)) :
    (∀ v, ((Session.run env₂ el .void).exec s).1 = .ok v →
      ((Session.run env₂ (Session.holding f false).1 .void).exec (Session.holding f false).2).1 =
      .ok v) ∧ (e.hasConditional = false ∨ s.subst.bindings = [] → ∀ v,
      ((Session.run env₂ (Session.holding f false).1 .void).exec (Session.holding f false).2).1 =
      .ok v → ((Session.run env₂ el .void).exec s).1 = .ok v) := by
  have hresumed := run_residual_value he h₁ h₂ hext hres
  have hfresh := run_holding_iff he h₂ false
  exact ⟨fun v h => (hfresh v).2 (hresumed.1 v h), fun hcases v h =>
    hresumed.2 hcases v ((hfresh v).1 h)⟩

def ifSymbols : Form :=
  .expr [.name "if" none ⟨0, 0⟩, .name "x" none ⟨0, 0⟩, .name "y" none ⟨0, 0⟩,
    .name "z" none ⟨0, 0⟩] ⟨0, 0⟩

/-- With nothing known at first, the residual of `(if x y z)` comes to the branch that the condition
picks. -/
theorem run_residual_ifSymbols : ∃ el s,
    (Session.resolve (scopeOf []) (Session.holding ifSymbols true).1 .void).exec
    (Session.holding ifSymbols true).2 = (.error (.unresolved el), s) ∧
    ((Session.run (scopeOf [("x", .bool true), ("y", .int 1), ("z", .str "a")]) el .void).exec
    s).1 = .ok (.int 1) := by
  obtain ⟨el, s, hres, hbindings⟩ :=
    exists_of_residual? ((Session.resolve (scopeOf []) (Session.holding ifSymbols true).1
    .void).exec (Session.holding ifSymbols true).2) (fun _ s =>
      s.subst.bindings.isEmpty) (by decide +kernel)
  obtain ⟨e, he, hvalue⟩ : ∃ e, expr? ifSymbols = some e ∧
      e.value? (scalar? (scopeOf [("x", .bool true), ("y", .int 1), ("z", .str "a")])) =
      some (.int 1) := ⟨_, rfl, rfl⟩
  have hscope : OverBuiltins (scopeOf [("x", .bool true), ("y", .int 1), ("z", .str "a")]) :=
    .scopeOf (by decide)
  have h := run_of_run_residual he (.scopeOf (by decide)) hscope
    (.scopeOf_append [] _ (by decide)) hres
  exact ⟨el, s, hres,
    h.2 (.inr (List.isEmpty_iff.1 hbindings)) _ ((run_holding_iff he hscope false _).2 hvalue)⟩

def ifText : Form :=
  .expr [.name "if" none ⟨0, 0⟩, .name "x" none ⟨0, 0⟩, .name "y" none ⟨0, 0⟩,
    .literal (.str "a") ⟨0, 0⟩] ⟨0, 0⟩

/-- With the branch `"a"` known at first, the residual of `(if x y "a")` fails where the form has
the value of `y`. -/
theorem not_run_residual_ifText : ∃ el s,
    (Session.resolve (scopeOf []) (Session.holding ifText true).1 .void).exec
    (Session.holding ifText true).2 = (.error (.unresolved el), s) ∧
    (∀ v, ((Session.run (scopeOf [("x", .bool true), ("y", .int 1)]) el .void).exec s).1 ≠ .ok v) ∧
    ((Session.run (scopeOf [("x", .bool true), ("y", .int 1)])
    (Session.holding ifText false).1 .void).exec
      (Session.holding ifText false).2).1 = .ok (.int 1) := by
  obtain ⟨el, s, hres, hok⟩ :=
    exists_of_residual? ((Session.resolve (scopeOf []) (Session.holding ifText true).1
    .void).exec (Session.holding ifText true).2) (fun el s =>
      !((Session.run (scopeOf [("x", .bool true), ("y", .int 1)]) el .void).exec s).1.isOk)
        (by decide +kernel)
  have hscope : OverBuiltins (scopeOf [("x", .bool true), ("y", .int 1)]) := .scopeOf (by decide)
  have hfresh := (run_holding_iff (f := ifText) (v := .int 1) rfl hscope false).2 rfl
  refine ⟨el, s, hres, fun v hv => ?_, hfresh⟩
  rw [hv] at hok
  cases hok

end Residual

end Resolvent
