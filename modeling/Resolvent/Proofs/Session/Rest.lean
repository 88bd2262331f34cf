import Resolvent.Operator.Resolve
import Resolvent.Proofs.Element.Store

/-!
# Calls at rest

An operator folds arguments that are known, drops those that do not decide, and picks between
branches.
-/

namespace Resolvent

open List

namespace Store

variable {st st' : Store} {id : Nat}

lemma Kept.val?_eq (h : Kept st st') (hid : id < st.size) : st'.val? id = st.val? id := by
  rw [val?, val?, h.content_eq hid]

lemma Kept.callable?_eq (h : Kept st st') (hid : id < st.size) :
    st'.callable? id = st.callable? id := by
  rw [callable?, callable?, h.content_eq hid]

lemma Kept.typeOf_eq (h : Kept st st') (hid : id < st.size) : st'.typeOf id = st.typeOf id := by
  induction id using Nat.strong_induction_on with
  | _ id ih =>
    have hbelow (c : Nat) : (if _ : c < id then st'.typeOf c else Ty.void) = if _ :
      c < id then st.typeOf c else Ty.void := by
      split
      · next hc => exact ih c hc (hc.trans hid)
      · rfl
    rw [typeOf, typeOf, h.content_eq hid]
    simp only [hbelow]

end Store

lemma Call.mem_flatten_of_mem_group {c : Call} {i a : Nat} (h : a ∈ c.group i) :
    a ∈ c.groups.flatten := by
  rw [group, getD_eq_getElem?_getD] at h
  cases hg : c.groups[i]? with
  | none => simp [hg] at h
  | some g =>
    rw [hg] at h
    exact mem_flatten.2 ⟨g, mem_of_getElem? hg, h⟩

/-- The element stands for a type, if it is a name. -/
def NamesType (scope : Scope) (st : Store) (a : Nat) : Prop :=
  match st.content a with
  | .name n none => ∃ d t, scope.lookup n = .ok (some d) ∧ d.pending = false ∧ d.val = some (.typ t)
  | .name _ (some d) => ∃ t, d.val = some (.typ t)
  | _ => True

lemma NamesType.kept {scope : Scope} {st st' : Store} {a : Nat} (h : NamesType scope st a)
    (hlt : a < st.size) (hk : st.Kept st') : NamesType scope st' a := by
  rwa [NamesType, hk.content_eq hlt]

namespace Operator

variable {st st' : Store} {args : List Nat} {c : Call}

/-! ## Known values -/

lemma knownValues_eq (h : st.Kept st') (hargs : ∀ a ∈ args, a < st.size) :
    knownValues st' args = knownValues st args := by
  induction args with
  | nil => rfl
  | cons a args ih =>
    rw [knownValues, knownValues, h.val?_eq (hargs a (by simp)),
      ih fun b hb => hargs b (by simp [hb])]

lemma length_knownValues_le (st : Store) (args : List Nat) :
    (knownValues st args).length ≤ args.length := by
  induction args with
  | nil => simp [knownValues]
  | cons a args ih =>
    rw [knownValues]
    split
    · simpa using ih
    · simp

lemma knownValues_drop (st : Store) (args : List Nat) :
    knownValues st (args.drop (knownValues st args).length) = [] := by
  induction args with
  | nil => rfl
  | cons a args ih =>
    rw [knownValues]
    cases ha : st.val? a with
    | some v => simpa using ih
    | none => simp [knownValues, ha]

lemma target?_eq (h : st.Kept st') (hargs : ∀ a ∈ c.groups.flatten, a < st.size) :
    target? st' c = target? st c := by
  unfold target?
  cases ha : c.arg? 0 with
  | none => rfl
  | some a =>
    have hlt : a < st.size := hargs a (c.mem_flatten_of_mem_group (mem_of_mem_head? ha))
    simp only [Option.bind_some, h.val?_eq hlt]

lemma mapM_val?_eq (h : st.Kept st') (hargs : ∀ a ∈ args, a < st.size) :
    args.mapM st'.val? = args.mapM st.val? := by
  induction args with
  | nil => rfl
  | cons a args ih =>
    rw [mapM_cons, mapM_cons, h.val?_eq (hargs a (by simp)), ih fun b hb => hargs b (by simp [hb])]

/-! ## Nothing left to do -/

/-- Nothing is left to fold: the known arguments at the front have no reduction, or they are not all
and too few. -/
def Folded (leading : Bool) (reduce : List Val → Except EvalCause Val) (st : Store)
    (groups : List (List Nat)) : Prop :=
  ∀ args more, groups = args :: more → ∀ v, reduce (knownValues st args) = .ok v →
    ¬ ((knownValues st args).length = args.length ∧ more = []) ∧
    ¬ (leading ∧ 2 ≤ (knownValues st args).length)

lemma Folded.kept {leading : Bool} {reduce : List Val → Except EvalCause Val}
    {groups : List (List Nat)} (h : Folded leading reduce st groups) (hk : st.Kept st')
    (hlt : ∀ a ∈ groups.flatten, a < st.size) : Folded leading reduce st' groups := by
  rintro args more rfl
  rw [knownValues_eq hk fun a ha => hlt a (by simp [ha])]
  exact h args more rfl

/-- Nothing is left to drop: no argument is known, except that the last one may decide after others.
-/
def Undropped (conjunction : Bool) (st : Store) (args : List Nat) : Prop :=
  ∃ front back, args = front ++ back ∧ (∀ a ∈ front, st.val? a = none) ∧
    (back = [] ∨ front ≠ [] ∧ ∃ a v, back = [a] ∧ st.val? a = some v ∧ decides conjunction v)

lemma Undropped.kept {conjunction : Bool} (h : Undropped conjunction st args) (hk : st.Kept st')
    (hlt : ∀ a ∈ args, a < st.size) : Undropped conjunction st' args := by
  obtain ⟨front, back, rfl, hfront, hback⟩ := h
  refine ⟨front, back, rfl, fun a ha => ?_, hback.imp_right ?_⟩
  · rw [hk.val?_eq (hlt a (by simp [ha])), hfront a ha]
  · rintro ⟨hne, a, v, rfl, hv, hd⟩
    exact ⟨hne, a, v, rfl, by rw [hk.val?_eq (hlt a (by simp)), hv], hd⟩

/-- No value can be made: the type or an argument is not known, or there is no conversion. -/
def Unconstructed (st : Store) (c : Call) : Prop :=
  ∀ t, target? st c = some t → ∀ v, ((c.group 1).mapM st.val?).map (Val.construct t) ≠ some (.ok v)

lemma Unconstructed.kept (h : Unconstructed st c) (hk : st.Kept st')
    (hargs : ∀ a ∈ c.groups.flatten, a < st.size) : Unconstructed st' c := by
  intro t ht v
  rw [mapM_val?_eq hk fun a ha => hargs a (c.mem_flatten_of_mem_group ha)]
  exact h t (target?_eq hk hargs ▸ ht) v

/-- The declarations of a `let` whose arguments are done, each in the scope of those before it. -/
inductive Declared (done : Scope → Store → Nat → Prop) (scope : Scope) (st : Store) :
    LetScope → Prop
  | nil : Declared done scope st {}
  | snoc {l : LetScope} {d : Nat} {n : String} {a : Nat} {t : Ty}
      {defs : List (String × Definition)} :
      Declared done scope st l → st.content d = .decl n [a] → a < st.size →
      done (.locals l.defs :: scope) st a →
      Frame.define l.defs n ⟨t, st.val? a, st.callable? a, false⟩ = .ok defs →
      Declared done scope st ⟨defs, l.decls ++ [d], true, l.known && (st.val? a).isSome⟩

lemma Declared.kept {done : Scope → Store → Nat → Prop} {scope : Scope} {l : LetScope}
    (h : Declared done scope st l)
    (hdone : ∀ scope a, done scope st a → done scope st' a) (hk : st.Kept st') :
    Declared done scope st' l := by
  induction h with
  | nil => exact .nil
  | snoc _ hd ha hdone' hdefine ih =>
    rw [← hk.val?_eq ha, ← hk.callable?_eq ha] at hdefine
    rw [← hk.val?_eq ha]
    exact .snoc ih (hk.content hd nofun) (ha.trans_le hk.size_le) (hdone _ _ hdone') hdefine

end Operator

open Operator

/-- Nothing is left to do for the operator of the call, over arguments that are done. Calls that
open scopes do not count. -/
def Call.Rests (c : Call) (catalog : Catalog) (st : Store) : Prop :=
  match c.callable.op with
  | .builtin .and => c.groups = [c.group 0] ∧ c.group 0 ≠ [] ∧ Undropped true st (c.group 0)
  | .builtin .or => c.groups = [c.group 0] ∧ c.group 0 ≠ [] ∧ Undropped false st (c.group 0)
  | .builtin .not =>
    ∃ a, c.groups = [[a]] ∧ st.val? a = none ∧
      (negated? st a = none ∨ catalog.callable? Builtin.ok.name = none)
  | .builtin .cond => ∃ a groups, c.groups = [a] :: groups ∧ st.val? a = none
  | .builtin .ok => Folded false Reduce.truth st c.groups
  | .builtin .add => Folded true Reduce.sum st c.groups
  | .builtin .cat => Folded true Reduce.concat st c.groups
  | .builtin .eq => Folded false Reduce.equality st c.groups
  | .builtin .lt => Folded false Reduce.order st c.groups
  | .builtin .construct => Unconstructed st c
  | .builtin .scope | .builtin .lambda => False
  | .builtin .fail | .builtin .append | .builtin .merge | .closure _ _ _ _ _ | .apply | .collect =>
    True

end Resolvent
