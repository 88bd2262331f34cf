import Resolvent.Proofs.Repeat.Firm
import Resolvent.Proofs.Subst.Renaming
import Resolvent.Proofs.Val.Ground

/-!
# Copies of elements

Two sessions work on the same source, one of them after other work.
-/

namespace Resolvent

open Subst List Option

/-- The operator makes no functions and calls none. -/
def Callable.isFirstOrder (c : Callable) : Bool :=
  match c.op with
  | .builtin b => b ≠ .lambda
  | .collect => true
  | .closure .. | .apply => false

/-- The definition is no function and has no value but a ground one, whose type it has if it is to
be `literal`. -/
structure Definition.Plain (literal : Prop) (d : Definition) : Prop where
  callable : d.callable = none
  ground : ∀ v ∈ d.val, v.isGround
  typ : literal → ∀ v ∈ d.val, d.typ = v.typeOf

/-- Where the elements and the type variables of one session are found in another one. -/
structure Copying where
  /-- The number of the copy of an element. -/
  place : Nat → Nat
  mono : StrictMono place
  /-- How many type variables of the other session come first. -/
  before : Nat
  /-- The operators that names stand for. -/
  operator : String → Option Callable
  /-- Whether names with a value have the type of the value. -/
  literal : Prop

namespace Copying

variable (W : Copying) {st st₁ st' st₁' : Store} {id : Nat} {e : Content} {v : Val}

def ty (t : Ty) : Ty := t.rename (shift W.before)

@[simp] lemma ty_void : W.ty .void = .void := rfl

lemma ty_of_isGround {t : Ty} (h : t.isGround) : W.ty t = t := Ty.rename_of_isGround h

def definition (d : Definition) : Definition :=
  if d.callable.isSome then d else { d with typ := W.ty d.typ }

/-- The operator that applies a function takes its signature from the session. -/
def callable (c : Callable) : Callable :=
  match c.op with
  | .apply => { c with sig := W.ty c.sig }
  | _ => c

def call (c : Call) : Call := ⟨W.callable c.callable, c.groups.map (·.map W.place), c.sig.map W.ty⟩

def content : Content → Content
  | .literal v => .literal v
  | .name n d => .name n (d.map W.definition)
  | .tag n el => .tag n (el.map W.place)
  | .decl n args => .decl n (args.map W.place)
  | .expr items => .expr (items.map W.place)
  | .call c => .call (W.call c)

@[simp] lemma val_definition (d : Definition) : (W.definition d).val = d.val := by
  unfold definition
  split <;> rfl

@[simp] lemma callable_definition (d : Definition) : (W.definition d).callable = d.callable := by
  unfold definition
  split <;> rfl

@[simp] lemma pending_definition (d : Definition) : (W.definition d).pending = d.pending := by
  unfold definition
  split <;> rfl

@[simp] lemma isKnown_definition (d : Definition) : (W.definition d).isKnown = d.isKnown := by
  simp [Definition.isKnown]

lemma callable_of_isFirstOrder {c : Callable} (h : c.isFirstOrder) : W.callable c = c := by
  unfold Callable.isFirstOrder at h
  unfold callable
  split <;> simp_all

@[simp] lemma op_callable (c : Callable) : (W.callable c).op = c.op := by
  unfold callable
  split <;> simp_all

@[simp] lemma name_callable (c : Callable) : (W.callable c).name = c.name := by
  unfold callable
  split
  · next hop => simp [Callable.name, ty]
  · rfl

@[simp] lemma group_call (c : Call) (i : Nat) : (W.call c).group i = (c.group i).map W.place := by
  simp only [Call.group, call, getD_eq_getElem?_getD, getElem?_map]
  cases c.groups[i]? <;> rfl

@[simp] lemma arg?_call (c : Call) (i : Nat) : (W.call c).arg? i = (c.arg? i).map W.place := by
  simp [Call.arg?]

lemma typ_call {c : Call} (h : c.sig.isSome) : (W.call c).typ = W.ty c.typ := by
  obtain ⟨sig, hsig⟩ := isSome_iff_exists.1 h
  simp [Call.typ, call, hsig]

/-! ## Operands -/

/-- The number has an element, which is no name of an operator. -/
def Operand (st : Store) (id : Nat) : Prop :=
  id < st.size ∧ ∀ n d, st.content id = .name n d → W.operator n = none

variable {W} in
lemma Operand.kept (h : W.Operand st id) (hk : st.Kept st₁) : W.Operand st₁ id := by
  refine ⟨h.1.trans_le hk.size_le, ?_⟩
  rw [hk.content_eq h.1]
  exact h.2

variable {W} in
lemma Operand.of_content (hid : id < st.size) (hc : st.content id = e)
    (hname : ∀ n d, e ≠ .name n d) : W.Operand st id :=
  ⟨hid, fun n d hcontent => absurd (hc.symm.trans hcontent) (hname n d)⟩

/-- What operands are defined as. -/
abbrev Data (d : Definition) : Prop := d.Plain W.literal

lemma data_ofVal (hv : v.isGround) : W.Data (.ofVal v) where
  callable := Definition.callable_ofVal hv
  ground := by simpa [Definition.ofVal] using hv
  typ _ := by simp [Definition.ofVal]

lemma definition_ofVal (hv : v.isGround) : W.definition (.ofVal v) = .ofVal v := by
  simp [definition, Definition.ofVal, W.ty_of_isGround (Val.ground_typeOf v hv)]

/-- Values are ground, operators stand first in expressions only, and calls call operators that make
no functions. -/
def Plain (st : Store) : Content → Prop
  | .literal v => v.isGround
  | .name n d =>
    match W.operator n with
    | some c => c.isFirstOrder ∧ ∀ known ∈ d, known.callable = some c
    | none => ∀ known ∈ d, W.Data known
  | .tag _ el => ∀ x ∈ el, W.Operand st x
  | .decl n args => W.operator n = none ∧ ∀ x ∈ args, W.Operand st x
  | .expr items => (∀ x ∈ items.head?, x < st.size) ∧ ∀ x ∈ items.tail, W.Operand st x
  | .call c => (c.callable.isFirstOrder ∨ c.callable.op = .apply) ∧ ∀ x ∈ c.groups.flatten,
      W.Operand st x

variable {W} in
lemma Plain.kept (h : W.Plain st e) (hk : st.Kept st₁) : W.Plain st₁ e := by
  cases e with
  | literal v => exact h
  | name n d => exact h
  | tag n el => exact fun x hx => (h x hx).kept hk
  | decl n args => exact ⟨h.1, fun x hx => (h.2 x hx).kept hk⟩
  | expr items => exact ⟨fun x hx => (h.1 x hx).trans_le hk.size_le, fun x hx => (h.2 x hx).kept hk⟩
  | call c => exact ⟨h.1, fun x hx => (h.2 x hx).kept hk⟩

/-! ## Stores -/

/-- The second store has a copy of each element of the first, and is as far ahead as new elements
are. -/
structure Copied (st st' : Store) : Prop where
  content_eq : ∀ id < st.size, st'.content (W.place id) = W.content (st.content id)
  place_add : ∀ j, W.place (st.size + j) = st'.size + j
  plain : ∀ id < st.size, W.Plain st (st.content id)

namespace Copied

variable {W} (h : W.Copied st st')
include h

lemma place_size : W.place st.size = st'.size := h.place_add 0

lemma place_lt (hid : id < st.size) : W.place id < st'.size := h.place_size ▸ W.mono hid

lemma content_place (hid : id < st.size) (hc : st.content id = e) :
    st'.content (W.place id) = W.content e :=
  hc ▸ h.content_eq id hid

lemma plain_of (hid : id < st.size) (hc : st.content id = e) : W.Plain st e := hc ▸ h.plain id hid

lemma alloc (hc : W.Plain st e) (span span' : Span) :
    W.Copied (st.alloc e span).2 (st'.alloc (W.content e) span').2 where
  content_eq id hid := by
    rcases Nat.lt_succ_iff_lt_or_eq.1 (by simpa using hid) with hlt | rfl
    · rw [(Store.Kept.alloc st e span).content_eq hlt,
        (Store.Kept.alloc st' _ span').content_eq (h.place_lt hlt), h.content_eq id hlt]
    · rw [h.place_size, Store.content_alloc_size, Store.content_alloc_size]
  place_add j := by rw [Store.size_alloc, Store.size_alloc, Nat.add_assoc, h.place_add,
  Nat.add_assoc]
  plain id hid := by
    rcases Nat.lt_succ_iff_lt_or_eq.1 (by simpa using hid) with hlt | rfl
    · rw [(Store.Kept.alloc st e span).content_eq hlt]
      exact (h.plain id hlt).kept (.alloc st e span)
    · rw [Store.content_alloc_size]
      exact hc.kept (.alloc st e span)

lemma val?_eq (hid : id < st.size) : st'.val? (W.place id) = st.val? id := by
  unfold Store.val?
  rw [h.content_eq id hid]
  cases hc : st.content id with
  | name n d => cases d <;> simp [content]
  | _ => rfl

lemma ground_val? (hid : W.Operand st id) (hv : st.val? id = some v) : v.isGround := by
  have hplain := h.plain id hid.1
  unfold Store.val? at hv
  split at hv
  · next w hc =>
    cases hv
    rwa [hc] at hplain
  · next n d hc =>
    rw [hc, Plain, hid.2 n _ hc] at hplain
    exact (hplain d rfl).ground v hv
  · cases hv

lemma typeOf_of_val? (hliteral : W.literal) (hid : W.Operand st id) (hv : st.val? id = some v) :
    st.typeOf id = v.typeOf := by
  have hplain := h.plain id hid.1
  rw [Store.typeOf]
  unfold Store.val? at hv
  split at hv
  · next w hc =>
    cases hv
    rw [hc]
  · next n d hc =>
    rw [hc, Plain, hid.2 n _ hc] at hplain
    rw [hc]
    exact (hplain d rfl).typ hliteral v hv
  · cases hv

lemma callable?_of_operand (hid : W.Operand st id) : st.callable? id = none ∧
    st'.callable? (W.place id) = none := by
  have hplain := h.plain id hid.1
  have hcopy := h.content_eq id hid.1
  unfold Store.callable?
  rw [hcopy]
  cases hc : st.content id with
  | literal v =>
    rw [hc] at hplain
    cases v with
    | fn f => cases hplain
    | _ => exact ⟨rfl, rfl⟩
  | name n d =>
    rw [hc, Plain, hid.2 n _ hc] at hplain
    cases d with
    | none => exact ⟨rfl, rfl⟩
    | some d => simp [content, (hplain d rfl).callable]
  | _ => exact ⟨rfl, rfl⟩

open Layout Operator

lemma classOf_eq (hid : id < st.size) : classOf st' (W.place id) = classOf st id := by
  unfold classOf
  rw [h.content_eq id hid]
  cases st.content id <;> rfl

lemma declParts_eq (hid : id < st.size) :
    declParts st' (W.place id) = ((declParts st id).1, (declParts st id).2.map W.place) := by
  unfold declParts
  rw [h.content_eq id hid]
  cases st.content id <;> rfl

lemma negated?_eq (hid : id < st.size) :
    negated? st' (W.place id) = (negated? st id).map W.place := by
  unfold negated?
  rw [h.content_eq id hid]
  cases hc : st.content id with
  | call c =>
    change (if (W.callable c.callable).name = _ then (W.call c).arg? 0 else none) =
      Option.map W.place (if _ then _ else _)
    rw [name_callable, arg?_call]
    split <;> rfl
  | _ => rfl

lemma knownValues_eq {ids : List Nat} (hids : ∀ i ∈ ids, i < st.size) :
    knownValues st' (ids.map W.place) = knownValues st ids := by
  induction ids with
  | nil => rfl
  | cons id ids ih =>
    simp only [map_cons, knownValues, h.val?_eq (hids id (by simp)),
      ih fun i hi => hids i (by simp [hi])]

end Copied

/-! ## Types of operands -/

structure Typed (st st' : Store) (id : Nat) : Prop where
  operand : W.Operand st id
  typeOf_eq : st'.typeOf (W.place id) = W.ty (st.typeOf id)

namespace Typed

variable {W} {n : String}

lemma kept (h : W.Typed st st' id) (hst : W.Copied st st') (hk : st.Kept st₁)
    (hk' : st'.Kept st₁') : W.Typed st₁ st₁' id where
  operand := h.operand.kept hk
  typeOf_eq := by rw [hk.typeOf_eq h.operand.1, hk'.typeOf_eq (hst.place_lt h.operand.1),
  h.typeOf_eq]

variable (h : W.Copied st st') (hid : id < st.size)
include h hid

lemma literal (hc : st.content id = .literal v) : W.Typed st st' id where
  operand := .of_content hid hc nofun
  typeOf_eq := by
    have hv : v.isGround := h.plain_of hid hc
    rw [Store.typeOf, Store.typeOf, hc, h.content_place hid hc]
    exact (W.ty_of_isGround (Val.ground_typeOf v hv)).symm

lemma name {d : Definition} (hc : st.content id = .name n (some d)) (hn : W.operator n = none) :
    W.Typed st st' id where
  operand := by
    refine ⟨hid, fun m d' hc' => ?_⟩
    cases hc.symm.trans hc'
    exact hn
  typeOf_eq := by
    have hplain := h.plain_of hid hc
    rw [Plain, hn] at hplain
    rw [Store.typeOf, Store.typeOf, hc, h.content_place hid hc]
    simp [content, definition, (hplain d rfl).callable]

lemma tag {el : Option Nat} (hc : st.content id = .tag n el) (hel : ∀ x ∈ el, W.Typed st st' x) :
    W.Typed st st' id where
  operand := .of_content hid hc nofun
  typeOf_eq := by
    rw [Store.typeOf, Store.typeOf, hc, h.content_place hid hc]
    cases el with
    | none => rfl
    | some x =>
      simp only [content, map_some, W.mono.lt_iff_lt]
      split
      · exact (hel x rfl).typeOf_eq
      · rfl

lemma decl {args : List Nat} (hc : st.content id = .decl n args)
    (hargs : ∀ x ∈ args.getLast?, W.Typed st st' x) : W.Typed st st' id where
  operand := .of_content hid hc nofun
  typeOf_eq := by
    rw [Store.typeOf, Store.typeOf, hc, h.content_place hid hc]
    simp only [content, getLast?_map]
    cases hlast : args.getLast? with
    | none => rfl
    | some x =>
      simp only [map_some, W.mono.lt_iff_lt]
      split
      · exact (hargs x hlast).typeOf_eq
      · rfl

lemma call {c : Call} (hc : st.content id = .call c) (hsig : c.sig.isSome) : W.Typed st st' id where
  operand := .of_content hid hc nofun
  typeOf_eq := by
    rw [Store.typeOf, Store.typeOf, hc, h.content_place hid hc]
    change (W.call c).typ.result = W.ty c.typ.result
    rw [W.typ_call hsig, ty, Ty.result_rename, ty]

end Typed

end Copying

end Resolvent
