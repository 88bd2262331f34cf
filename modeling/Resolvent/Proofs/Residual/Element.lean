import Resolvent.Proofs.Element.Store
import Resolvent.Proofs.Residual.Meaning
import Resolvent.Proofs.Session.Run
import Resolvent.Proofs.Subst.Acyclic

/-!
# Elements that show expressions

How the elements of a store spell an expression: a scalar is a literal or a name that has been
looked up, and an operator is called by an expression with its name at the head or by a call.
-/

namespace Resolvent

namespace Residual

open Residual.Expr

variable {ρ : String → Option Val} {s s' s'' : Session} {st st' : Store} {id : Nat}
  {ids W : List Nat} {e : Expr} {es : List Expr} {V : List Nat} {n : Nat}

namespace Oper

def callable (op : Oper) : Callable :=
  ⟨op.builtin.signature, .builtin op.builtin, Builtin.all.idxOf op.builtin⟩

def signature (op : Oper) (k : Nat) : Ty :=
  match op with
  | conditional => .form op.name [("cond", .any), ("then", .var k []), ("else?", .var k []),
      ("", .var k [])]
  | fold .sum => .form op.name [("plain", .list (.var k [.num])), ("", .var k [])]
  | op => op.builtin.signature

/-- The arguments grouped by parameters: a conditional has three, other operators have one. -/
def groups (op : Oper) (ids : List Nat) : List (List Nat) :=
  match op with
  | conditional => [ids.take 1, (ids.drop 1).take 1, ids.drop 2]
  | logic _ | negation | fold _ => [ids]

lemma flatten_groups (op : Oper) (ids : List Nat) : (op.groups ids).flatten = ids := by
  cases op with
  | conditional => rcases ids with _ | ⟨c, _ | ⟨yes, ids⟩⟩ <;> simp [groups]
  | logic | negation | fold => simp [groups]

lemma callable?_name (op : Oper) : Catalog.builtins.callable? op.name = some op.callable := by
  cases op with
  | logic c => cases c <;> rfl
  | negation | conditional => rfl
  | fold f => cases f <;> rfl

lemma instantiateGeneric_eq (op : Oper) (σ : Subst) : σ.instantiateGeneric op.callable.sig =
      (op.signature (σ.size + 1), if op.isGeneric then { σ with size := σ.size + 1 } else σ) := by
  cases op with
  | logic c => cases c <;> rfl
  | negation | conditional => rfl
  | fold f => cases f <;> rfl

end Oper

/-- The element calls the operator with the given arguments. -/
def Calls (st : Store) (id : Nat) (op : Oper) (mark : Option Nat) (ids : List Nat) : Prop :=
  match mark with
  | some k => op.arity ids.length ∧
      st.content id = .call ⟨op.callable, op.groups ids, some (op.signature k)⟩
  | none =>
    op.arity ids.length ∧ st.content id = .call ⟨op.callable, op.groups ids, none⟩ ∨
      ∃ h, st.content id = .expr (h :: ids) ∧ st.content h = .name op.name none

mutual

/-- The element spells the expression. -/
def Shows (st : Store) : Nat → Expr → Prop
  | id, .lit v => v.isScalar ∧
      (st.content id = .literal v ∨ ∃ n, st.content id = .name n (some (.ofVal v)))
  | id, .sym n => st.content id = .name n none
  | id, .call op mark args => ∃ ids, ShowsAll st ids args ∧ Calls st id op mark ids

def ShowsAll (st : Store) : List Nat → List Expr → Prop
  | [], [] => True
  | id :: ids, e :: es => Shows st id e ∧ ShowsAll st ids es
  | _, _ => False

end

lemma showsAll_iff : ShowsAll st ids es ↔ List.Forall₂ (Shows st) ids es := by
  induction ids generalizing es with
  | nil => cases es <;> simp [ShowsAll]
  | cons id ids ih => cases es <;> simp [ShowsAll, ih]

lemma ShowsAll.length_eq (h : ShowsAll st ids es) : ids.length = es.length :=
  (showsAll_iff.1 h).length_eq

lemma ShowsAll.exists_of_mem (h : ShowsAll st ids es) (he : e ∈ es) :
    ∃ id ∈ ids, Shows st id e := by
  rw [showsAll_iff] at h
  induction h with
  | nil => cases he
  | cons hid _ ih =>
    rcases List.mem_cons.1 he with rfl | he
    · exact ⟨_, by simp, hid⟩
    · obtain ⟨i, hi, hshows⟩ := ih he
      exact ⟨i, by simp [hi], hshows⟩

lemma Calls.kept {op : Oper} {mark : Option Nat} (h : Calls st id op mark ids) (hk : st.Kept st') :
    Calls st' id op mark ids := by
  cases mark with
  | some k => exact ⟨h.1, hk.content h.2 nofun⟩
  | none =>
    rcases h with ⟨hn, hc⟩ | ⟨h, hc, hh⟩
    · exact .inl ⟨hn, hk.content hc nofun⟩
    · exact .inr ⟨h, hk.content hc nofun, hk.content hh nofun⟩

lemma Shows.kept (h : Shows st id e) (hk : st.Kept st') : Shows st' id e := by
  induction e using Expr.induct generalizing id with
  | lit v =>
    refine ⟨h.1, h.2.imp (fun hc => hk.content hc nofun) ?_⟩
    rintro ⟨n, hc⟩
    exact ⟨n, hk.content hc nofun⟩
  | sym n => exact hk.content h nofun
  | call op mark args ih =>
    obtain ⟨ids, hargs, hc⟩ := h
    refine ⟨ids, ?_, hc.kept hk⟩
    clear hc
    induction args generalizing ids with
    | nil => cases ids <;> simp_all [ShowsAll]
    | cons a args iha =>
      cases ids with
      | nil => simp [ShowsAll] at hargs
      | cons id ids => exact ⟨ih a (by simp) hargs.1,
          iha (fun b hb => ih b (by simp [hb])) ids hargs.2⟩

lemma ShowsAll.kept (h : ShowsAll st ids es) (hk : st.Kept st') : ShowsAll st' ids es :=
  showsAll_iff.2 ((showsAll_iff.1 h).imp fun _ _ hs => hs.kept hk)

lemma Shows.val? (h : Shows st id e) : st.val? id = e.lit? := by
  cases e with
  | lit v =>
    rcases h.2 with hc | ⟨n, hc⟩
    · simp [Store.val?, hc, lit?]
    · simp [Store.val?, hc, Definition.ofVal, lit?]
  | sym n => simp [Store.val?, show st.content id = .name n none from h, lit?]
  | call op mark args =>
    obtain ⟨ids, _, hc⟩ := h
    cases mark with
    | some k => simp [Store.val?, hc.2, lit?]
    | none =>
      rcases hc with ⟨_, hc⟩ | ⟨h, hc, _⟩
      · simp [Store.val?, hc, lit?]
      · simp [Store.val?, hc, lit?]

/-! ## Sessions -/

/-- A session over the builtin operators whose type variables are bound to types without variables.
-/
structure Fine (s : Session) : Prop where
  catalog : s.catalog = .builtins
  sound : s.subst.Sound
  closed : ∀ i b, s.subst.get? i = some b → b.outerVars = []

/-- What steps leave alone that may bind the given type variables: elements stay, and so does what
is known of other type variables. -/
structure Grows (V : List Nat) (s s' : Session) : Prop where
  fine : Fine s'
  store : s.store.Kept s'.store
  lenient : s'.lenient = s.lenient
  size_le : s.subst.size ≤ s'.subst.size
  bound : ∀ i, (s.subst.get? i).isSome → (s'.subst.get? i).isSome
  frame : ∀ i, i ≤ s.subst.size → i ∉ V → s'.subst.get? i = s.subst.get? i

lemma Grows.refl (h : Fine s) : Grows V s s :=
  ⟨h, .refl _, rfl, le_rfl, fun _ hi => hi, fun _ _ _ => rfl⟩

lemma Grows.trans (h : Grows V s s') (h' : Grows W s' s'')
    (hW : ∀ i ∈ W, i ∈ V ∨ s.subst.size < i) : Grows V s s'' where
  fine := h'.fine
  store := h.store.trans h'.store
  lenient := h'.lenient.trans h.lenient
  size_le := h.size_le.trans h'.size_le
  bound i hi := h'.bound i (h.bound i hi)
  frame i hi hV := by
    rw [h'.frame i (hi.trans h.size_le) fun hiW => ?_, h.frame i hi hV]
    rcases hW i hiW with hiV | hlt
    · exact hV hiV
    · omega

lemma Grows.mono (h : Grows V s s') (hVW : V ⊆ W) : Grows W s s' :=
  ⟨h.fine, h.store, h.lenient, h.size_le, h.bound, fun i hi hW => h.frame i hi fun hV =>
    hW (hVW hV)⟩

lemma Grows.alloc (h : Fine s) (c : Content) (span : Span) :
    Grows V s { s with store := (s.store.alloc c span).2 } :=
  ⟨⟨h.catalog, h.sound, h.closed⟩, .alloc _ _ _, rfl, le_rfl, fun _ hi => hi, fun _ _ _ => rfl⟩

/-- The type variable of a sum that can still come to an integer. -/
def Open (σ : Subst) (k : Nat) : Prop := σ.get? k = none ∨ σ.get? k = some .int

/-- Elements that show expressions and are ready to be resolved. -/
structure Good (ρ : String → Option Val) (s : Session) (ids : List Nat) (es : List Expr) :
    Prop where
  shows : ShowsAll s.store ids es
  distinct : (varsAll es).Nodup
  bounded : ∀ k ∈ varsAll es, 0 < k ∧ k ≤ s.subst.size
  ready : ∀ p ∈ markedAll es, p.2.isSum → p.2.value? ρ ≠ none → Open s.subst p.1

lemma Good.grow (h : Good ρ s ids es) (hg : Grows V s s') (hV : ∀ k ∈ varsAll es, k ∉ V) :
    Good ρ s' ids es where
  shows := h.shows.kept hg.store
  distinct := h.distinct
  bounded k hk := ⟨(h.bounded k hk).1, (h.bounded k hk).2.trans hg.size_le⟩
  ready p hp hsum hv := by
    have hmem : p.1 ∈ varsAll es := List.mem_map_of_mem hp
    have hopen := h.ready p hp hsum hv
    rwa [Open, ← hg.frame p.1 (h.bounded _ hmem).2 (hV _ hmem)] at hopen

/-- No branch of a visited conditional has been resolved: the type variables of conditionals are
unbound. -/
def Undecided (s : Session) (es : List Expr) : Prop :=
  ∀ p ∈ markedAll es, p.2.isSum = false → s.subst.get? p.1 = none

lemma Undecided.grow (h : Undecided s es) (hg : Grows V s s')
    (hV : ∀ k ∈ varsAll es, k ≤ s.subst.size ∧ k ∉ V) : Undecided s' es := by
  intro p hp hsum
  have hmem := hV p.1 (List.mem_map_of_mem hp)
  rw [hg.frame p.1 hmem.1 hmem.2, h p hp hsum]

end Residual

end Resolvent
