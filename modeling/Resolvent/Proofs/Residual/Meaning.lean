import Resolvent.Operator.Resolve
import Mathlib.Data.List.Basic
import Mathlib.Data.Option.Basic

/-!
# Logic and arithmetic as expressions

Expressions over scalars, symbols, conditionals and the operators of logic, arithmetic, text and
comparison, with a meaning of their own: the value under an assignment of values to symbols, if
there is one.
-/

namespace Resolvent

open List Option

/-- Null, truth values, integers and texts. -/
def Val.isScalar : Val → Bool
  | .null | .bool _ | .int _ | .str _ => true
  | _ => false

namespace Residual

variable {xs ys : List (Option Val)} {vs ws : List Val} {w v : Val} {f : Folder} {c : Bool}

/-- The operators that reduce the values of all of their arguments. -/
inductive Folder where
  | truth
  | sum
  | concat
  | equality
  | order
  deriving DecidableEq

namespace Folder

def builtin : Folder → Builtin
  | truth => .ok
  | sum => .add
  | concat => .cat
  | equality => .eq
  | order => .lt

def reduce : Folder → List Val → Except EvalCause Val
  | truth => Reduce.truth
  | sum => Reduce.sum
  | concat => Reduce.concat
  | equality => Reduce.equality
  | order => Reduce.order

def leading : Folder → Bool
  | sum | concat => true
  | truth | equality | order => false

def arity (f : Folder) (n : Nat) : Bool :=
  match f with
  | truth => n == 1
  | sum | concat | equality | order => n != 0

/-- Whether an argument may have the value by its type. Numbers are told apart by the reduction
itself. -/
def admits (f : Folder) (v : Val) : Bool :=
  match f, v with
  | concat, .null | concat, .str _ => true
  | concat, _ => false
  | _, _ => true

def known : List (Option Val) → Option (List Val)
  | [] => some []
  | none :: _ => none
  | some v :: vs => (known vs).map (v :: ·)

def apply (f : Folder) (vs : List (Option Val)) : Option Val :=
  if f.arity vs.length then
    (known vs).bind fun vs => if vs.all f.admits then (f.reduce vs).toOption else none else none

/-! ## Laws of reduction -/

lemma known_map_some (vs : List Val) : known (vs.map some) = some vs := by
  induction vs with
  | nil => rfl
  | cons v vs ih => simp [known, ih]

lemma known_eq_some_iff : known xs = some vs ↔ xs = vs.map some := by
  constructor
  · intro h
    induction xs generalizing vs with
    | nil => simp_all [known]
    | cons x xs ih =>
      cases x with
      | none => simp [known] at h
      | some v =>
        obtain ⟨ws, hws, rfl⟩ := map_eq_some_iff.1 h
        simp [ih hws]
  · rintro rfl
    exact known_map_some vs

lemma apply_eq_some_iff : f.apply xs = some w ↔
      ∃ vs, xs = vs.map some ∧ f.arity vs.length ∧ vs.all f.admits ∧ f.reduce vs = .ok w := by
  unfold apply
  constructor
  · intro h
    split at h
    · next hn =>
      obtain ⟨vs, hvs, hw⟩ := bind_eq_some_iff.1 h
      obtain rfl := known_eq_some_iff.1 hvs
      split at hw
      · next hallowed =>
        refine ⟨vs, rfl, by simpa using hn, hallowed, ?_⟩
        cases hr : f.reduce vs <;> simp_all [Except.toOption]
      · simp at hw
    · simp at h
  · rintro ⟨vs, rfl, hn, hallowed, hr⟩
    simp only [length_map, hn, known_map_some, bind_some, hallowed, hr]
    rfl

lemma plus_int_zero (n : Int64) : Reduce.plus (.int 0) (.int n) = .ok (.int n) := by
  have hlo := n.minValue_le_toInt
  have hhi := n.toInt_le
  simp only [Reduce.plus, Int64.toInt_zero, Int.zero_add, hlo, hhi, and_self, ↓reduceIte,
    Int64.ofInt_toInt]

lemma sum_ints {m : Int64} (hvs : ∀ v ∈ vs, v.isScalar)
    (h : vs.foldlM Reduce.plus (.int m) = .ok w) :
    (∃ n, w = .int n) ∧ ∀ v ∈ vs, ∃ n, v = .int n := by
  induction vs generalizing m with
  | nil =>
    obtain rfl : Val.int m = w := by simpa [pure, Except.pure] using h
    exact ⟨⟨m, rfl⟩, by simp⟩
  | cons v vs ih =>
    have hv := hvs v (by simp)
    rw [foldlM_cons] at h
    cases v with
    | int n =>
      simp only [Reduce.plus] at h
      split at h
      · obtain ⟨hw, hrest⟩ := ih (fun v hv => hvs v (by simp [hv])) h
        exact ⟨hw, by simpa using hrest⟩
      · cases h
    | null => cases h
    | bool b => cases h
    | str s => cases h
    | _ => simp [Val.isScalar] at hv

lemma isScalar_of_reduce (hvs : ∀ v ∈ vs, v.isScalar) (h : f.reduce vs = .ok w) : w.isScalar := by
  cases f with
  | truth => cases h; rfl
  | sum =>
    obtain ⟨⟨n, rfl⟩, _⟩ := sum_ints hvs h
    rfl
  | concat => cases h; rfl
  | equality => cases h; rfl
  | order =>
    change (do return Val.bool (← Reduce.increasing vs)) = Except.ok w at h
    cases hi : Reduce.increasing vs <;> rw [hi] at h <;> cases h
    rfl

lemma reduce_append (hf : f.leading) (hvs : ∀ v ∈ vs, v.isScalar)
    (h : f.reduce vs = .ok w) : f.reduce (w :: ws) = f.reduce (vs ++ ws) := by
  cases f with
  | sum =>
    obtain ⟨⟨n, rfl⟩, _⟩ := sum_ints hvs h
    have hzero := plus_int_zero n
    simp only [reduce, Reduce.sum, foldlM_append, foldlM_cons] at h ⊢
    rw [h, hzero]
  | concat =>
    cases h
    simp [reduce, Reduce.concat, Val.plainText]
  | truth | equality | order => simp [leading] at hf

lemma apply_fold (hf : f.leading)
    (hvs : ∀ v ∈ vs, v.isScalar) (hallowed : ∀ v ∈ vs, f.admits v) (hne : vs ≠ [])
    (h : f.reduce vs = .ok w) : f.apply (some w :: xs) = f.apply (vs.map some ++ xs) := by
  have harity (n : Nat) (hn : n ≠ 0) : f.arity n := by
    cases f with
    | sum | concat => simpa [arity] using hn
    | truth | equality | order => simp [leading] at hf
  have hw : f.admits w := by
    cases f with
    | sum => rfl
    | concat => cases h; rfl
    | truth | equality | order => rfl
  ext u
  simp only [apply_eq_some_iff]
  constructor
  · rintro ⟨us, hus, _, hall, hr⟩
    obtain ⟨ws, rfl, rfl⟩ : ∃ ws, us = w :: ws ∧ xs = ws.map some := by
      cases us with
      | nil => simp at hus
      | cons u us => simp_all
    refine ⟨vs ++ ws, by simp, harity _ (by simp [hne]), ?_, by rwa [← reduce_append hf hvs h]⟩
    simp only [all_cons, hw, Bool.true_and] at hall
    simpa [hall] using hallowed
  · rintro ⟨us, hus, _, hall, hr⟩
    obtain ⟨ws, rfl, rfl⟩ : ∃ ws, us = vs ++ ws ∧ xs = ws.map some := by
      have hlen : us.take vs.length = vs := by
        have := congrArg (take vs.length) hus
        refine map_injective_iff.2 (some_injective Val) ?_
        simpa [take_append, map_take] using this.symm
      refine ⟨us.drop vs.length, ?_, ?_⟩
      · conv_lhs => rw [← take_append_drop vs.length us, hlen]
      · have := congrArg (drop vs.length) hus
        simpa using this
    refine ⟨w :: ws, by simp, harity _ (by simp), ?_, by rwa [reduce_append hf hvs h]⟩
    simp only [all_append, Bool.and_eq_true] at hall
    simpa [hw] using hall.2

end Folder

inductive Oper where
  /-- Conjunction or disjunction. -/
  | logic (conjunction : Bool)
  | negation
  | conditional
  | fold (f : Folder)
  deriving DecidableEq

namespace Oper

def builtin : Oper → Builtin
  | logic true => .and
  | logic false => .or
  | negation => .not
  | conditional => .cond
  | fold f => f.builtin

def name (op : Oper) : String := op.builtin.name

/-- The first argument that decides; one without a value before it leaves the result without one. -/
def junction (conjunction : Bool) : List (Option Val) → Option Val
  | [] => some (.bool conjunction)
  | none :: _ => none
  | some v :: vs => if Operator.decides conjunction v then some (.bool !conjunction)
      else junction conjunction vs

/-- The argument that a condition picks; without a second one it may pick null. -/
def pick : List (Option Val) → Option Val
  | [c, yes] => c.bind fun v => if v.isZero then some .null else yes
  | [c, yes, no] => c.bind fun v => if v.isZero then no else yes
  | _ => none

def apply : Oper → List (Option Val) → Option Val
  | logic c, vs => junction c vs
  | negation, [v] => v.map fun v => .bool v.isZero
  | negation, _ => none
  | conditional, vs => pick vs
  | fold f, vs => f.apply vs

def arity : Oper → Nat → Bool
  | logic _, _ => true
  | negation, n => n == 1
  | conditional, n => n == 2 || n == 3
  | fold f, n => f.arity n

def isGeneric : Oper → Bool
  | conditional | fold .sum => true
  | _ => false

def vars (op : Oper) (mark : Option Nat) : List Nat := if op.isGeneric then mark.toList else []

/-! ## Laws of logic -/

lemma junction_append (h : junction c xs = junction c ys)
    (zs : List (Option Val)) : junction c (zs ++ xs) = junction c (zs ++ ys) := by
  induction zs with
  | nil => exact h
  | cons z zs ih =>
    cases z with
    | none => rfl
    | some v => simp only [cons_append, junction, ih]

lemma junction_decided (h : Operator.decides c v) (xs : List (Option Val)) :
    junction c (some v :: xs) = some (.bool !c) := by
  simp [junction, h]

lemma junction_skip (h : Operator.decides c v = false) (xs : List (Option Val)) :
    junction c (some v :: xs) = junction c xs := by
  simp [junction, h]

lemma apply_eq_none {op : Oper} (h : op.arity xs.length = false) : op.apply xs = none := by
  cases op with
  | logic c => cases h
  | negation =>
    rcases xs with _ | ⟨x, _ | ⟨y, xs⟩⟩
    · rfl
    · cases h
    · rfl
  | conditional =>
    rcases xs with _ | ⟨c, _ | ⟨yes, _ | ⟨no, _ | ⟨x, xs⟩⟩⟩⟩
    · rfl
    · rfl
    · cases h
    · cases h
    · rfl
  | fold f =>
    have hf : f.arity xs.length = false := h
    simp [apply, Folder.apply, hf]

lemma pick_none (xs : List (Option Val)) : pick (none :: xs) = none := by
  rcases xs with _ | ⟨yes, _ | ⟨no, _ | ⟨x, xs⟩⟩⟩ <;> rfl

lemma pick_eq_some (h : pick xs = some v) : v = .null ∨ some v ∈ xs := by
  rcases xs with _ | ⟨_ | c, _ | ⟨yes, _ | ⟨no, _ | ⟨x, xs⟩⟩⟩⟩ <;> simp only [pick, bind_none,
    bind_some, reduceCtorEq] at h
  · split at h
    · exact .inl (some.inj h).symm
    · exact .inr (by simp [h])
  · split at h
    · exact .inr (by simp [h])
    · exact .inr (by simp [h])

lemma truth_eq_negation_negation (x : Option Val) :
    (fold .truth).apply [x] = negation.apply [negation.apply [x]] := by
  cases x with
  | none => rfl
  | some v =>
    simp [apply, Folder.apply, Folder.arity, Folder.known, Folder.admits, Folder.reduce,
      Reduce.truth, Except.toOption, Val.isZero]

end Oper

/-! ## Expressions -/

/-- Expressions; a call that has been visited is marked with its type variable. -/
inductive Expr where
  | lit (v : Val)
  | sym (name : String)
  | call (op : Oper) (mark : Option Nat) (args : List Expr)

namespace Expr

variable {ρ : String → Option Val}

lemma induct {motive : Expr → Prop} (lit : ∀ v, motive (.lit v)) (sym : ∀ n, motive (.sym n))
    (call : ∀ op mark args, (∀ a ∈ args, motive a) → motive (.call op mark args)) (e : Expr) :
    motive e :=
  @rec motive (fun es => ∀ e ∈ es, motive e) lit sym call (by simp)
    (fun e es he hes => by simpa using ⟨he, hes⟩) e

def lit? : Expr → Option Val
  | lit v => some v
  | sym _ | call _ _ _ => none

def isSum : Expr → Bool
  | lit _ | sym _ => false
  | call op _ _ => op = .fold .sum

mutual

/-- The value of an expression, if it has one. -/
def value? (ρ : String → Option Val) : Expr → Option Val
  | lit v => some v
  | sym n => ρ n
  | call op _ args => op.apply (values ρ args)

def values (ρ : String → Option Val) : List Expr → List (Option Val)
  | [] => []
  | e :: es => e.value? ρ :: values ρ es

end

lemma values_eq_map (es : List Expr) : values ρ es = es.map (·.value? ρ) := by
  induction es with
  | nil => rfl
  | cons e es ih => simp [values, ih]

mutual

/-- How deep steps nest that visit an expression; the name of an operator is visited as well. -/
def depth : Expr → Nat
  | lit _ | sym _ => 1
  | call _ _ args => 2 + depths args

def depths : List Expr → Nat
  | [] => 0
  | e :: es => max e.depth (depths es)

end

lemma depths_le_iff {es : List Expr} {d : Nat} : depths es ≤ d ↔ ∀ e ∈ es, e.depth ≤ d := by
  induction es with
  | nil => simp [depths]
  | cons e es ih => simp only [depths, Nat.max_le, ih, mem_cons, forall_eq_or_imp]

mutual

def symbols : Expr → List String
  | lit _ => []
  | sym n => [n]
  | call _ _ args => symbolsAll args

def symbolsAll : List Expr → List String
  | [] => []
  | e :: es => e.symbols ++ symbolsAll es

end

lemma symbolsAll_eq_flatMap (es : List Expr) : symbolsAll es = es.flatMap symbols := by
  induction es with
  | nil => rfl
  | cons e es ih => simp [symbolsAll, ih]

mutual

/-- The visited expressions that have a type variable, with that variable. -/
def marked : Expr → List (Nat × Expr)
  | lit _ | sym _ => []
  | call op mark args => ((op.vars mark).map fun k => (k, call op mark args)) ++ markedAll args

def markedAll : List Expr → List (Nat × Expr)
  | [] => []
  | e :: es => e.marked ++ markedAll es

end

mutual

/-- Some part of the expression is a conditional. -/
def hasConditional : Expr → Bool
  | lit _ | sym _ => false
  | call op _ args => op = .conditional || hasConditionals args

def hasConditionals : List Expr → Bool
  | [] => false
  | e :: es => e.hasConditional || hasConditionals es

end

/-- The type variables that belong to visited expressions. -/
def varsAll (es : List Expr) : List Nat := (markedAll es).map (·.1)

end Expr

/-! ## Expressions without a value -/

/-- Resolved, but without a value whatever the symbols stand for: the first argument that is not a
scalar is without a value, or scalars cannot be reduced. -/
inductive Stuck : Expr → Prop where
  | logic {c : Bool} {k : Nat} {a : Expr} {rest : List Expr} : Stuck a →
      Stuck (.call (.logic c) (some k) (a :: rest))
  | negation {k : Nat} {a : Expr} : Stuck a → Stuck (.call .negation (some k) [a])
  | conditional {k : Nat} {a : Expr} {rest : List Expr} : Stuck a →
      Stuck (.call .conditional (some k) (a :: rest))
  | part {f : Folder} {k : Nat} {vs : List Val} {a : Expr} {rest : List Expr} :
      Stuck a → Stuck (.call (.fold f) (some k) (vs.map .lit ++ a :: rest))
  | reduce {f : Folder} {k : Nat} {vs : List Val} {c : EvalCause} :
      f.reduce vs = .error c → Stuck (.call (.fold f) (some k) (vs.map .lit))

lemma Stuck.value? {ρ : String → Option Val} {e : Expr} (h : Stuck e) : e.value? ρ = none := by
  induction h with
  | logic _ ih => simp [Expr.value?, Expr.values, ih, Oper.apply, Oper.junction]
  | negation _ ih => simp [Expr.value?, Expr.values, ih, Oper.apply]
  | conditional _ ih => simp [Expr.value?, Expr.values, ih, Oper.apply, Oper.pick_none]
  | @part f k vs a rest _ ih =>
    rw [eq_none_iff_forall_ne_some]
    intro w hw
    obtain ⟨us, hus, _⟩ := Folder.apply_eq_some_iff.1 hw
    have hmem : none ∈ us.map some := by simp [← hus, Expr.values_eq_map, ih]
    simp at hmem
  | @reduce f k vs c hr =>
    rw [eq_none_iff_forall_ne_some]
    intro w hw
    obtain ⟨us, hus, _, _, hok⟩ := Folder.apply_eq_some_iff.1 hw
    have : us = vs := by
      refine map_injective_iff.2 (some_injective Val) ?_
      rw [← hus, Expr.values_eq_map, List.map_map]
      rfl
    rw [this, hr] at hok
    cases hok

lemma Stuck.lit? {e : Expr} (h : Stuck e) : e.lit? = none := by cases h <;> rfl

/-- What resolving comes to if no symbol is missing: a scalar or an expression without a value. -/
def Settled (e : Expr) : Prop := (∃ v, e = .lit v) ∨ Stuck e

end Residual

end Resolvent
