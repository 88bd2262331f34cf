import Resolvent.Layout
import Resolvent.Proofs.Element.Store
import Mathlib.Data.List.Forall2

/-!
# Declarations that take over an argument

In a run of declarations that need one argument each, those without one wait for the next that has
one and become copies of themselves with its argument.
-/

namespace Resolvent.Layout

open List

namespace Arrange

variable {α β : Type}

def exec (m : Arrange α) (s : Store) : Except Failure α × Store := StateT.run (ExceptT.run m) s

@[simp] lemma exec_pure (x : α) (s : Store) : exec (pure x) s = (.ok x, s) := rfl

@[simp] lemma exec_throw (e : Failure) (s : Store) : exec (throw e : Arrange α) s = (.error e, s) :=
  rfl

@[simp] lemma exec_get_bind (k : Store → Arrange α) (s : Store) :
    exec (get >>= k) s = (k s).exec s := rfl

lemma exec_bind (m : Arrange α) (k : α → Arrange β) (s : Store) :
    exec (m >>= k) s = match m.exec s with
      | (.ok a, s') => (k a).exec s'
      | (.error e, s') => (.error e, s') := by
  unfold exec
  rw [ExceptT.run_bind, StateT.run_bind]
  rcases StateT.run (ExceptT.run m) s with ⟨_ | _, _⟩ <;> rfl

lemma exec_bind_eq_ok {m : Arrange α} {k : α → Arrange β} {s s' : Store} {b : β} :
    exec (m >>= k) s = (.ok b, s') ↔ ∃ a s₁, m.exec s = (.ok a, s₁) ∧
    (k a).exec s₁ = (.ok b, s') := by
  rw [exec_bind]
  rcases m.exec s with ⟨_ | a, s₁⟩ <;> simp

end Arrange

variable {s s₁ s' s'' : Store} {d id : Nat} {ids ds os waiting copies outs : List Nat}

def declName (s : Store) (id : Nat) : String := (declParts s id).1

def declArgs (s : Store) (id : Nat) : List Nat := (declParts s id).2

lemma declParts_kept (h : s.Kept s') (hd : d < s.size) : declParts s' d = declParts s d := by
  rw [declParts, declParts, h.content_eq hd]

lemma span_kept (h : s.Kept s') (hd : d < s.size) : s'.span d = s.span d := by
  rw [Store.span, Store.span, h.get d hd]

lemma classOf_kept (h : s.Kept s') (hd : d < s.size) : classOf s' d = classOf s d := by
  rw [classOf, classOf, h.content_eq hd]

lemma lt_size_of_classOf_decl (h : classOf s d = .decl) : d < s.size := by
  refine Store.lt_size_of_content_ne fun hc => ?_
  simp [classOf, hc, Class.of] at h

/-! ## What becomes of a run -/

/-- The argument of the nearest declaration that has one. -/
def nextArg (s : Store) (ds : List Nat) : Option Nat := ds.findSome? fun d => (declArgs s d).head?

/-- A run of declarations and what carrying arguments forward makes of it: declarations with one
argument stay, and those without one become new declarations with the next argument. -/
inductive Carried (s s' : Store) : List Nat → List Nat → Prop
  | nil : Carried s s' [] []
  | keep {d arg : Nat} {ds os : List Nat} : declArgs s d = [arg] → Carried s s' ds os →
      Carried s s' (d :: ds) (d :: os)
  | copy {d o arg : Nat} {ds os : List Nat} : declArgs s d = [] → nextArg s ds = some arg →
      s.size ≤ o → s'.get o = ⟨.decl (declName s d) [arg], s.span d⟩ → Carried s s' ds os →
    Carried s s' (d :: ds) (o :: os)

/-- The declaration at which a run fails: the first with several arguments, or the first of those at
the end that have none. -/
inductive Culprit (s : Store) : List Nat → Nat → Prop
  | several {before after : List Nat} {d : Nat} : 2 ≤ (declArgs s d).length →
      (∀ x ∈ before, (declArgs s x).length ≤ 1) → Culprit s (before ++ d :: after) d
  | none {before after : List Nat} {d : Nat} : (∀ x ∈ before, (declArgs s x).length ≤ 1) →
    (∀ x ∈ before.getLast?, (declArgs s x).length = 1) → (∀ x ∈ d :: after, declArgs s x = []) →
    Culprit s (before ++ d :: after) d

namespace Carried

lemma length_eq (h : Carried s s' ds os) : os.length = ds.length := by
  induction h with
  | nil => rfl
  | keep _ _ ih => simp [ih]
  | copy _ _ _ _ _ ih => simp [ih]

lemma at_index (h : Carried s s' ds os) {i o : Nat} (hd : ds[i]? = some d) (ho : os[i]? = some o) :
    ((declArgs s d).length = 1 → o = d) ∧ (declArgs s d = [] → s.size ≤ o ∧
        ∃ arg, nextArg s (ds.drop (i + 1)) = some arg ∧
        s'.get o = ⟨.decl (declName s d) [arg], s.span d⟩) := by
  induction h generalizing i with
  | nil => cases hd
  | keep hargs _ ih =>
    cases i with
    | zero => simp_all
    | succ i => exact ih hd ho
  | copy hargs harg hnew hget _ ih =>
    cases i with
    | zero => simp_all
    | succ i => exact ih hd ho

lemma names_eq (h : Carried s s' ds os) (hk : s.Kept s') (hds : ∀ d ∈ ds, d < s.size) :
    os.map (declName s') = ds.map (declName s) := by
  induction h with
  | nil => rfl
  | @keep d _ _ _ _ _ ih =>
    have hname : declName s' d = declName s d :=
      congrArg Prod.fst (declParts_kept hk (hds d (by simp)))
    simp [hname, ih fun x hx => hds x (by simp [hx])]
  | @copy d o _ _ _ _ _ _ hget _ ih =>
    have hname : declName s' o = declName s d := by simp [declName, declParts, Store.content, hget]
    simp [hname, ih fun x hx => hds x (by simp [hx])]

lemma arity (h : Carried s s' ds os) : (∀ d ∈ ds, (declArgs s d).length ≤ 1) ∧ ∀ d ∈ ds.getLast?,
    (declArgs s d).length = 1 := by
  induction h with
  | nil => simp
  | @keep d arg ds _ hd _ ih =>
    refine ⟨by simpa [hd] using ih.1, fun x hx => ?_⟩
    rw [getLast?_cons] at hx
    cases hlast : ds.getLast? with
    | none => simp_all
    | some y => simp_all
  | @copy d _ arg ds _ hd harg _ _ _ ih =>
    refine ⟨by simpa [hd] using ih.1, fun x hx => ?_⟩
    have hne : ds ≠ [] := by
      rintro rfl
      simp [nextArg] at harg
    rw [getLast?_cons_of_ne_nil hne] at hx
    exact ih.2 x hx

end Carried

lemma nextArg_append (h : ∀ d ∈ waiting, declArgs s d = []) (ds : List Nat) :
    nextArg s (waiting ++ ds) = nextArg s ds := by
  rw [nextArg, findSome?_append, findSome?_eq_none_iff.2 fun d hd => by simp [h d hd]]
  rfl

lemma Culprit.prepend (h : Culprit s ds d) (before : List Nat)
    (hbefore : ∀ x ∈ before, (declArgs s x).length ≤ 1)
    (hlast : ∀ x ∈ before.getLast?, (declArgs s x).length = 1) : Culprit s (before ++ ds) d := by
  cases h with
  | several htwo hle =>
    rw [← append_assoc]
    exact .several htwo fun x hx => (mem_append.1 hx).elim (hbefore x) (hle x)
  | @none before' after _ hle hlast' hnone =>
    rw [← append_assoc]
    refine .none (fun x hx => (mem_append.1 hx).elim (hbefore x) (hle x)) (fun x hx => ?_) hnone
    cases hb : before'.getLast? with
    | none => exact hlast x (by simpa [hb] using hx)
    | some y => exact hlast' x (by simpa [hb] using hx)

lemma Culprit.not_arity (h : Culprit s ds d) :
    ¬ ((∀ d ∈ ds, (declArgs s d).length ≤ 1) ∧ ∀ d ∈ ds.getLast?, (declArgs s d).length = 1) := by
  rintro ⟨hle, hlast⟩
  cases h with
  | several htwo =>
    have := hle d (by simp)
    omega
  | @none before after _ _ _ hnone =>
    obtain ⟨x, hx⟩ : ∃ x, (d :: after).getLast? = some x :=
      ⟨_, getLast?_eq_some_getLast (cons_ne_nil d after)⟩
    have hone := hlast x (by simp [hx])
    rw [hnone x (mem_of_getLast? hx)] at hone
    cases hone

/-! ## The walk -/

lemma exec_copyDecls (args : List Nat) (hk : s.Kept s₁) (hids : ∀ d ∈ ids, d < s.size) :
    ∃ copies s', (copyDecls args ids).exec s₁ = (.ok copies, s') ∧ s₁.Kept s' ∧
      Forall₂ (fun d o => s.size ≤ o ∧ s'.get o = ⟨.decl (declName s d) args, s.span d⟩) ids
      copies := by
  induction ids generalizing s₁ with
  | nil => exact ⟨[], s₁, rfl, .refl s₁, .nil⟩
  | cons id ids ih =>
    have hid : id < s.size := hids id (by simp)
    let s₂ := (s₁.alloc (.decl (declParts s₁ id).1 args) (s₁.span id)).2
    have hk₂ : s₁.Kept s₂ := .alloc s₁ _ _
    have hget : s₂.get s₁.size = ⟨.decl (declName s id) args, s.span id⟩ := by
      simp only [s₂, Store.get_alloc_size, declParts_kept hk hid, span_kept hk hid, declName]
    obtain ⟨copies, s', hexec, hk', hcopies⟩ := ih (hk.trans hk₂) fun d hd => hids d (by simp [hd])
    refine ⟨s₁.size :: copies, s', ?_, hk₂.trans hk', .cons ⟨hk.size_le, ?_⟩ hcopies⟩
    · change Arrange.exec (copyDecls args ids >>= fun copies => pure (s₁.size :: copies)) s₂ = _
      rw [Arrange.exec_bind, hexec]
      rfl
    · rw [hk'.get _ (by simp [s₂]), hget]

lemma Carried.prepend_copies {arg : Nat} (hwaiting : ∀ d ∈ waiting, declArgs s d = [])
    (hcopies : Forall₂ (fun d o => s.size ≤ o ∧ s'.get o = ⟨.decl (declName s d) [arg], s.span d⟩)
    waiting copies) (hid : declArgs s id = [arg]) (h : Carried s s' ids outs) :
    Carried s s' (waiting ++ id :: ids) (copies ++ id :: outs) := by
  induction hcopies with
  | nil => exact .keep hid h
  | @cons d o waiting copies hcopy _ ih =>
    have hrest : ∀ x ∈ waiting, declArgs s x = [] := fun x hx => hwaiting x (by simp [hx])
    have hnext : nextArg s (waiting ++ id :: ids) = some arg := by
      rw [nextArg_append hrest]
      simp [nextArg, hid]
    exact .copy (hwaiting d (by simp)) hnext hcopy.1 hcopy.2 (ih hrest)

lemma carryForward_spec (hk : s.Kept s₁) (hwaiting : ∀ d ∈ waiting, d < s.size ∧ declArgs s d = [])
    (hids : ∀ d ∈ ids, d < s.size) : ∃ s', s₁.Kept s' ∧
    ((∃ outs, (carryForward waiting ids).exec s₁ = (.ok outs, s') ∧
    Carried s s' (waiting ++ ids) outs) ∨ ∃ d, (carryForward waiting ids).exec s₁ =
        (.error (.uniArity (declName s d) (s.span d)), s') ∧ Culprit s (waiting ++ ids) d) := by
  induction ids generalizing s₁ waiting with
  | nil =>
    refine ⟨s₁, .refl s₁, ?_⟩
    cases waiting with
    | nil => exact .inl ⟨[], rfl, .nil⟩
    | cons d ds =>
      have hd : d < s.size := (hwaiting d (by simp)).1
      have hparts := declParts_kept hk hd
      have hspan := span_kept hk hd
      refine .inr ⟨d, ?_, ?_⟩
      · rw [carryForward, Arrange.exec_get_bind, hparts, hspan]
        rfl
      · rw [append_nil]
        exact @Culprit.none s [] ds d (by simp) (by simp) fun x hx => (hwaiting x hx).2
  | cons id ids ih =>
    have hid : id < s.size := hids id (by simp)
    have hrest : ∀ d ∈ ids, d < s.size := fun d hd => hids d (by simp [hd])
    have hle : ∀ d ∈ waiting, (declArgs s d).length ≤ 1 := fun d hd => by simp [(hwaiting d hd).2]
    have hparts := declParts_kept hk hid
    have hspan := span_kept hk hid
    rw [carryForward, Arrange.exec_get_bind, hparts, hspan]
    split
    · next hnone =>
      have hargs : declArgs s id = [] := by simp [declArgs, hnone]
      have hwaiting' : ∀ d ∈ waiting ++ [id], d < s.size ∧ declArgs s d = [] := by
        simpa [or_imp, forall_and, hid, hargs] using hwaiting
      simpa using ih hk hwaiting' hrest
    · next n arg hone =>
      have hargs : declArgs s id = [arg] := by simp [declArgs, hone]
      obtain ⟨copies, s₂, hcopy, hk₂, hcopies⟩ :=
        exec_copyDecls [arg] hk fun d hd => (hwaiting d hd).1
      obtain ⟨s', hk', hcases⟩ := ih (hk.trans hk₂) (forall_mem_nil _) hrest
      refine ⟨s', hk₂.trans hk', hcases.imp ?_ ?_⟩
      · rintro ⟨outs, hexec, hcarried⟩
        refine ⟨copies ++ id :: outs, ?_, ?_⟩
        · rw [Arrange.exec_bind, hcopy]
          dsimp only
          rw [Arrange.exec_bind, hexec]
          rfl
        · refine .prepend_copies (fun d hd => (hwaiting d hd).2) (hcopies.imp fun d o ho =>
            ⟨ho.1, ?_⟩) hargs hcarried
          rw [hk'.get o (Store.lt_size_of_content_ne (by simp [Store.content, ho.2])), ho.2]
      · rintro ⟨d, hexec, hculprit⟩
        refine ⟨d, ?_, ?_⟩
        · rw [Arrange.exec_bind, hcopy]
          dsimp only
          rw [Arrange.exec_bind, hexec]
        · have hfront := hculprit.prepend (waiting ++ [id]) ?_ (by simp [hargs])
          · simpa using hfront
          · simpa [or_imp, forall_and, hargs] using hle
    · next n args hnil hone hparts =>
      have htwo : 2 ≤ (declArgs s id).length := by
        rcases args with _ | ⟨arg, _ | ⟨arg', args⟩⟩
        · exact absurd rfl hnil
        · exact absurd rfl (hone arg)
        · simp [declArgs, hparts]
      exact ⟨s₁, .refl s₁, .inr ⟨id, by simp [declName, hparts], .several htwo hle⟩⟩

/-- Carrying arguments forward succeeds if and only if each declaration of the run has at most one
argument and the last has one. Then there is one declaration for each, of the same name: the same
element if it has an argument, and otherwise a new one at the same span with the argument of the
nearest declaration behind it that has one. A failure names the first declaration with several
arguments, or else the first after the last that has one. -/
theorem carryForward_exact (h : ∀ d ∈ ds, classOf s d = .decl) :
    ((∃ outs s', (carryForward [] ds).exec s = (.ok outs, s')) ↔
      (∀ d ∈ ds, (declArgs s d).length ≤ 1) ∧ ∀ d ∈ ds.getLast?, (declArgs s d).length = 1) ∧
    (∀ outs s', (carryForward [] ds).exec s = (.ok outs, s') →
      s.Kept s' ∧ outs.length = ds.length ∧ outs.map (declName s') = ds.map (declName s) ∧
      ∀ i d o, ds[i]? = some d → outs[i]? = some o → ((declArgs s d).length = 1 → o = d) ∧
        (declArgs s d = [] → s.size ≤ o ∧ ∃ arg, nextArg s (ds.drop (i + 1)) = some arg ∧
          s'.get o = ⟨.decl (declName s d) [arg], s.span d⟩)) ∧
    ∀ e s', (carryForward [] ds).exec s = (.error e, s') →
      s.Kept s' ∧ ∃ d, e = .uniArity (declName s d) (s.span d) ∧ Culprit s ds d := by
  have hds : ∀ d ∈ ds, d < s.size := fun d hd => lt_size_of_classOf_decl (h d hd)
  obtain ⟨s', hk, ⟨outs, hexec, hcarried⟩ | ⟨d, hexec, hculprit⟩⟩ :=
    carryForward_spec (.refl s) (List.forall_mem_nil _) hds
  · rw [List.nil_append] at hcarried
    refine ⟨⟨fun _ => hcarried.arity, fun _ => ⟨outs, s', hexec⟩⟩, ?_, ?_⟩
    · rintro outs₁ s₁ hexec₁
      obtain ⟨⟨⟩, rfl⟩ := Prod.mk.inj (hexec.symm.trans hexec₁)
      exact ⟨hk, hcarried.length_eq, hcarried.names_eq hk hds, fun i d o => hcarried.at_index⟩
    · intro e s₁ hexec₁
      cases (Prod.mk.inj (hexec.symm.trans hexec₁)).1
  · rw [List.nil_append] at hculprit
    refine ⟨⟨?_, fun harity => absurd harity hculprit.not_arity⟩, ?_, ?_⟩
    · rintro ⟨outs, s₁, hexec₁⟩
      cases (Prod.mk.inj (hexec.symm.trans hexec₁)).1
    · intro outs s₁ hexec₁
      cases (Prod.mk.inj (hexec.symm.trans hexec₁)).1
    · intro e s₁ hexec₁
      obtain ⟨⟨⟩, rfl⟩ := Prod.mk.inj (hexec.symm.trans hexec₁)
      exact ⟨hk, d, rfl, hculprit⟩

/-- A store with two literals, and the declarations `x` and `y` without, `z` with one and `w` with
two arguments. -/
def declared : Store where
  elements := #[⟨.literal (.int 1), ⟨6, 7⟩⟩, ⟨.literal (.int 2), ⟨14, 15⟩⟩, ⟨.decl "x" [], ⟨0, 2⟩⟩,
  ⟨.decl "y" [], ⟨3, 5⟩⟩, ⟨.decl "z" [0], ⟨3, 7⟩⟩, ⟨.decl "w" [0, 1], ⟨8, 15⟩⟩]

/-- Two declarations wait for the argument of a third; with another one behind them the last is to
blame, and one with two arguments is to blame before all others. -/
theorem carryForward_exact_declared : (∀ d ∈ [2, 3, 4], classOf declared d = .decl) ∧
    (∃ outs s', (carryForward [] [2, 3, 4]).exec declared = (.ok outs, s') ∧ outs.length = 3 ∧
      ∃ o ∈ outs, s'.get o = ⟨.decl "x" [0], ⟨0, 2⟩⟩) ∧
    (∀ d ∈ [2, 4, 3], classOf declared d = .decl) ∧
    (¬ ∃ outs s', (carryForward [] [2, 4, 3]).exec declared = (.ok outs, s')) ∧
    (∀ d ∈ [2, 5, 3], classOf declared d = .decl) ∧
    ¬ ∃ outs s', (carryForward [] [2, 5, 3]).exec declared = (.ok outs, s') := by
  have hrun : ∀ d ∈ [2, 3, 4], classOf declared d = .decl := by decide
  have hrun' : ∀ d ∈ [2, 4, 3], classOf declared d = .decl := by decide
  have hrun'' : ∀ d ∈ [2, 5, 3], classOf declared d = .decl := by decide
  obtain ⟨hiff, hok, -⟩ := carryForward_exact hrun
  obtain ⟨outs, s', hexec⟩ := hiff.2 (by decide)
  obtain ⟨-, hlen, -, hat⟩ := hok outs s' hexec
  refine ⟨hrun, ⟨outs, s', hexec, hlen, ?_⟩, hrun', mt (carryForward_exact hrun').1.1 (by decide),
    hrun'', mt (carryForward_exact hrun'').1.1 (by decide)⟩
  obtain ⟨o, ho⟩ : ∃ o, outs[0]? = some o := ⟨_, List.getElem?_eq_getElem (by simp [hlen])⟩
  obtain ⟨-, arg, harg, hget⟩ := (hat 0 2 o rfl ho).2 rfl
  obtain rfl : 0 = arg := Option.some.inj harg
  exact ⟨o, List.mem_of_getElem? ho, hget⟩

end Resolvent.Layout
