import Resolvent.Proofs.Element.Store
import Resolvent.Proofs.Subst.ClosedClass
import Resolvent.Proofs.Ty.Whole
import Resolvent.Proofs.Val.Closed

/-!
# Values, elements and scopes without references

Types occur in values, in definitions of names and in the signatures of calls.
-/

namespace Resolvent

open Solve List Option

variable {d : Definition} {n : String} {scope : Scope} {f : Frame}

/-! ## Searches over whole types

Whole types are a closed class, so what searches make of them is whole, and so is what they bind
variables to. -/

section

variable {α : Type} {s : Subst} {a b t : Ty}

namespace Subst

/-- Variables are bound to whole types. -/
def Whole (s : Subst) : Prop := ∀ i t, s.get? i = some t → t.Whole

lemma Whole.empty : ({} : Subst).Whole := Binds.empty

lemma Whole.apply (h : s.Whole) (ht : t.Whole) : (s.apply t).Whole := Ty.Whole.closed.apply h ht

lemma Whole.instantiateGeneric (h : s.Whole) (ht : t.Whole) :
    (s.instantiateGeneric t).1.Whole ∧ (s.instantiateGeneric t).2.Whole :=
  Ty.Whole.closed.instantiateGeneric h ht

end Subst

namespace Solve

/-- The search keeps bindings whole, and gives a result of which `P` holds or fails. -/
abbrev Finds (m : Solve α) (s : Subst) (P : α → Prop) : Prop := Keeps Subst.Whole m s P

end Solve

namespace Subst

lemma finds_unify (h : s.Whole) (ha : a.Whole) (hb : b.Whole) : Finds (unify a b) s Ty.Whole :=
  Ty.Whole.closed.keeps_unify h ha hb

lemma finds_choose (h : s.Whole) (ht : t.Whole) : Finds (choose t) s Ty.Whole :=
  Ty.Whole.closed.keeps_choose h ht

end Subst

end

namespace Val

variable {v w : Val} {vs ws : List Val} {t : Ty} {ts : List Ty} {entries : List (String × Val)}

mutual

/-- All types in the value are whole. -/
def isWhole : Val → Bool
  | typ t => decide t.Whole
  | fn f => decide f.sig.Whole
  | list items => areWhole items
  | dict entries => entriesWhole entries
  | null | bool _ | int _ | real _ | str _ => true

def areWhole : List Val → Bool
  | [] => true
  | v :: vs => v.isWhole && areWhole vs

def entriesWhole : List (String × Val) → Bool
  | [] => true
  | (_, v) :: entries => v.isWhole && entriesWhole entries

end

@[simp] lemma areWhole_iff : areWhole vs ↔ ∀ v ∈ vs, v.isWhole := by
  induction vs with
  | nil => simp [areWhole]
  | cons v vs ih => simp [areWhole, ih]

@[simp] lemma entriesWhole_iff : entriesWhole entries ↔ ∀ p ∈ entries, p.2.isWhole := by
  induction entries with
  | nil => simp [entriesWhole]
  | cons p entries ih => simp [entriesWhole, ih]

lemma commonType_mem {P : Ty → Prop} (hP : Ty.ClosedClass P) (hts : ∀ t ∈ ts, P t)
    (h : commonType ts = some t) : P t := by
  unfold commonType at h
  split at h
  · cases h
  · have hkeeps := hP.keeps_choose Subst.Binds.empty (hP.alt hts)
    rcases hres : (exec (Subst.choose (.alt ts)) {}).1 with e | u <;> rw [hres] at h
    · cases h
    · cases h
      exact hkeeps.2 _ hres

/-- The values of a class have types of another class, if their functions do. -/
structure TypesIn (Q : Val → Prop) (P : Ty → Prop) : Prop where
  plain : ∀ {k : Kind}, k.isCtx = false → k.slot = 0 → P (.plain k)
  around : ∀ {k : Kind} {t : Ty}, k.isCtx = false → P t → P (.around k t)
  common : ∀ {ts : List Ty} {t : Ty}, (∀ u ∈ ts, P u) → commonType ts = some t → P t
  fn : ∀ {f : Callable}, Q (.fn f) → P f.sig
  list : ∀ {items : List Val}, Q (.list items) → ∀ v ∈ items, Q v
  dict : ∀ {entries : List (String × Val)}, Q (.dict entries) → ∀ p ∈ entries, Q p.2

namespace TypesIn

variable {P : Ty → Prop} {Q : Val → Prop}

mutual

lemma typeOf_mem (h : TypesIn Q P) : (v : Val) → Q v → P v.typeOf
  | .null, _ | .bool _, _ | .int _, _ | .real _, _ | .str _, _ | .typ _, _ => h.plain rfl rfl
  | .fn _, hv => h.fn hv
  | .list items, hv => by
    rw [typeOf]
    cases hc : commonType (typesOf items) with
    | none => exact h.plain rfl rfl
    | some t => exact h.around rfl (h.common (typesOf_mem h items (h.list hv)) hc)
  | .dict entries, hv => by
    rw [typeOf]
    cases hc : commonType (entryTypes entries) with
    | none => exact h.plain rfl rfl
    | some t => exact h.around rfl (h.common (entryTypes_mem h entries (h.dict hv)) hc)

lemma typesOf_mem (h : TypesIn Q P) : (vs : List Val) → (∀ v ∈ vs, Q v) → ∀ t ∈ typesOf vs, P t
  | [], _ => nofun
  | v :: vs, hvs => forall_mem_cons.2 ⟨typeOf_mem h v (hvs v (by simp)),
      typesOf_mem h vs fun w hw => hvs w (by simp [hw])⟩

lemma entryTypes_mem (h : TypesIn Q P) : (entries : List (String × Val)) → (∀ p ∈ entries, Q p.2) →
    ∀ t ∈ entryTypes entries, P t
  | [], _ => nofun
  | (n, v) :: entries, hvs =>
    forall_mem_cons.2 ⟨typeOf_mem h v (hvs (n, v) (by simp)), entryTypes_mem h entries fun p hp =>
    hvs p (by simp [hp])⟩

end

end TypesIn

lemma typesIn_isWhole : TypesIn (fun v => v.isWhole) Ty.Whole where
  plain := Ty.Whole.closed.plain
  around := Ty.Whole.closed.around
  common := commonType_mem Ty.Whole.closed
  fn := by simp [isWhole]
  list := by simp [isWhole]
  dict := by simp [isWhole]

lemma closed_isWhole : Closed fun v => v.isWhole where
  atom := by
    intro v hv
    cases v <;> first | rfl | cases hv
  list := by simp [isWhole]
  dict := by simp [isWhole]
  typeOf := by
    intro v hv
    simpa [isWhole] using typesIn_isWhole.typeOf_mem v hv
  void := rfl

end Val

/-! ## Definitions and scopes -/

lemma Catalog.get?_cases {catalog : Catalog} (h : catalog.get? n = some d) :
    (∃ p ∈ catalog.schemas, d = .ofVal (.typ p.2)) ∨ ∃ c, catalog.callable? n = some c ∧
    d = .ofCallable c := by
  unfold get? at h
  split at h
  · obtain ⟨t, ht, rfl⟩ := map_eq_some_iff.1 h
    obtain ⟨p, hp, rfl⟩ := map_eq_some_iff.1 ht
    exact .inl ⟨p, mem_of_find?_eq_some hp, rfl⟩
  · obtain ⟨c, hc, rfl⟩ := map_eq_some_iff.1 h
    exact .inr ⟨c, hc, rfl⟩

/-- The definitions that a frame holds, other than those of a catalog. -/
inductive Frame.Holds : Frame → Definition → Prop
  | locals {defs : List (String × Definition)} {p : String × Definition} : p ∈ defs →
      Holds (.locals defs) p.2
  | params {defs : List (String × Definition)} {p : String × Definition} : p ∈ defs →
      Holds (.params defs) p.2
  | data {root : Bool} {v w : Val} {keys : List String} : v.path? keys = some w →
      Holds (.data root v) (.ofVal w)

lemma Frame.get?_cases (h : f.get? n = some d) : (∃ c, f = .catalog c ∧ c.get? n = some d) ∨
    f.Holds d := by
  have hnamed {defs : List (String × Definition)} {n : String} (h : named? defs n = some d) :
    ∃ p ∈ defs, p.2 = d := by
    obtain ⟨p, hp, rfl⟩ := map_eq_some_iff.1 h
    exact ⟨p, mem_of_find?_eq_some hp, rfl⟩
  cases f with
  | catalog c => exact .inl ⟨c, rfl, h⟩
  | locals defs =>
    obtain ⟨p, hp, rfl⟩ := hnamed h
    exact .inr (.locals hp)
  | params defs =>
    unfold get? at h
    dsimp only at h
    split at h
    · cases h
    · obtain ⟨p, hp, rfl⟩ := map_eq_some_iff.1 h
      exact .inr (.params (mem_of_getElem? hp))
    · obtain ⟨p, hp, rfl⟩ := hnamed h
      exact .inr (.params hp)
  | data root v =>
    obtain ⟨w, hw, rfl⟩ := map_eq_some_iff.1 h
    obtain ⟨path, -, hw⟩ := bind_eq_some_iff.1 hw
    exact .inr (.data hw)

lemma Scope.exists_of_lookup (h : scope.lookup n = .ok (some d)) :
    ∃ f ∈ scope, f.get? n = some d := by
  unfold lookup at h
  split at h
  · split at h
    · next f hf => exact ⟨f, mem_of_find?_eq_some hf, Except.ok.inj h⟩
    · cases h
  · exact exists_of_findSome?_eq_some (Except.ok.inj h)

/-- All types in the definition are whole. -/
structure Definition.Whole (d : Definition) : Prop where
  typ : d.typ.Whole
  val : ∀ v ∈ d.val, v.isWhole
  callable : ∀ c ∈ d.callable, c.sig.Whole

instance : DecidablePred Definition.Whole := fun d =>
  decidable_of_iff (d.typ.Whole ∧ (∀ v ∈ d.val, v.isWhole) ∧ ∀ c ∈ d.callable, c.sig.Whole)
    ⟨fun h => ⟨h.1, h.2.1, h.2.2⟩, fun h => ⟨h.typ, h.val, h.callable⟩⟩

namespace Definition

variable {v : Val} {t : Ty} {c : Callable}

lemma whole_typed (ht : t.Whole) : (typed t).Whole := ⟨ht, nofun, nofun⟩

lemma whole_waiting : waiting.Whole := ⟨.plain rfl, nofun, nofun⟩

lemma whole_ofVal (hv : v.isWhole) : (ofVal v).Whole := by
  refine ⟨Val.typesIn_isWhole.typeOf_mem v hv, by simpa [ofVal] using hv, ?_⟩
  cases v <;> simp_all [ofVal, Val.isWhole]

lemma whole_ofCallable (hc : c.sig.Whole) : (ofCallable c).Whole :=
  ⟨hc, nofun, by simpa [ofCallable] using hc⟩

end Definition

/-- The signatures and schemas of the catalog are whole. -/
structure Catalog.Whole (c : Catalog) : Prop where
  callables : ∀ p ∈ c.callables, p.2.sig.Whole
  schemas : ∀ p ∈ c.schemas, p.2.Whole

instance : DecidablePred Catalog.Whole := fun c =>
  decidable_of_iff ((∀ p ∈ c.callables, p.2.sig.Whole) ∧ ∀ p ∈ c.schemas, p.2.Whole)
    ⟨fun h => ⟨h.1, h.2⟩, fun h => ⟨h.callables, h.schemas⟩⟩

namespace Catalog

lemma Whole.callable? {catalog : Catalog} {c : Callable} (h : catalog.Whole)
    (hc : catalog.callable? n = some c) : c.sig.Whole := by
  obtain ⟨p, hp, rfl⟩ := map_eq_some_iff.1 hc
  exact h.callables p (mem_of_find?_eq_some hp)

lemma Whole.get? {catalog : Catalog} (h : catalog.Whole) (hd : catalog.get? n = some d) :
    d.Whole := by
  rcases get?_cases hd with ⟨p, hp, rfl⟩ | ⟨c, hc, rfl⟩
  · exact Definition.whole_ofVal (by simpa [Val.isWhole] using h.schemas p hp)
  · exact Definition.whole_ofCallable (h.callable? hc)

lemma whole_builtins : builtins.Whole := by decide

end Catalog

def Frame.Whole : Frame → Prop
  | catalog c => c.Whole
  | locals defs | params defs => ∀ p ∈ defs, p.2.Whole
  | data _ v => v.isWhole

instance : DecidablePred Frame.Whole
  | .catalog c => inferInstanceAs (Decidable c.Whole)
  | .locals defs | .params defs => inferInstanceAs (Decidable (∀ p ∈ defs, p.2.Whole))
  | .data _ v => inferInstanceAs (Decidable (v.isWhole = true))

lemma Frame.whole_get? (hf : f.Whole) (h : f.get? n = some d) : d.Whole := by
  rcases get?_cases h with ⟨c, rfl, hd⟩ | hd
  · exact Catalog.Whole.get? hf hd
  · cases hd with
    | locals hp | params hp => exact hf _ hp
    | data hw => exact Definition.whole_ofVal (Val.closed_isWhole.path? hf hw)

namespace Scope

/-- All types in the scope are whole. -/
def Whole (scope : Scope) : Prop := ∀ f ∈ scope, f.Whole

instance : DecidablePred Whole := fun scope => inferInstanceAs (Decidable (∀ f ∈ scope, f.Whole))

lemma Whole.cons (hf : f.Whole) (h : scope.Whole) : Whole (f :: scope) := forall_mem_cons.2 ⟨hf, h⟩

lemma Whole.lookup (h : scope.Whole) (hd : scope.lookup n = .ok (some d)) : d.Whole := by
  obtain ⟨f, hf, hget⟩ := exists_of_lookup hd
  exact Frame.whole_get? (h f hf) hget

end Scope

/-! ## Elements -/

/-- The signatures of the operator and of the call are whole. -/
structure Call.Whole (c : Call) : Prop where
  callable : c.callable.sig.Whole
  sig : ∀ t ∈ c.sig, t.Whole

instance : DecidablePred Call.Whole := fun c =>
  decidable_of_iff (c.callable.sig.Whole ∧ ∀ t ∈ c.sig, t.Whole) ⟨fun h => ⟨h.1, h.2⟩,
    fun h => ⟨h.callable, h.sig⟩⟩

lemma Call.Whole.typ {c : Call} (h : c.Whole) : c.typ.Whole := by
  unfold Call.typ
  cases hsig : c.sig with
  | none => exact h.callable
  | some t => exact h.sig t hsig

/-- All types in the element are whole. -/
def Content.Whole : Content → Prop
  | literal v => v.isWhole
  | name _ d => ∀ known ∈ d, known.Whole
  | call c => c.Whole
  | tag _ _ | decl _ _ | expr _ => True

instance : DecidablePred Content.Whole
  | .literal v => inferInstanceAs (Decidable (v.isWhole = true))
  | .name _ d => inferInstanceAs (Decidable (∀ known ∈ d, known.Whole))
  | .call c => inferInstanceAs (Decidable c.Whole)
  | .tag _ _ | .decl _ _ | .expr _ => .isTrue trivial

namespace Store

variable {st : Store} {id : Nat} {v : Val} {c : Callable}

/-- All types in the elements are whole. -/
def Whole (st : Store) : Prop := ∀ id, (st.content id).Whole

instance : DecidablePred Whole := fun st =>
  decidable_of_iff (∀ e ∈ st.elements.toList, e.content.Whole)
    (forall_content_iff (Q := Content.Whole) trivial).symm

lemma Whole.alloc {content : Content} (h : st.Whole) (hc : content.Whole) (span : Span) :
    (st.alloc content span).2.Whole := by
  intro id
  rcases Nat.lt_trichotomy id st.size with hlt | rfl | hgt
  · rw [Store.content, get_alloc_of_lt _ _ hlt]
    exact h id
  · rw [content_alloc_size]
    exact hc
  · rw [content_of_size_le (by rw [size_alloc]; omega)]
    trivial

lemma Whole.val? (h : st.Whole) (hv : st.val? id = some v) : v.isWhole := by
  have hid := h id
  unfold Store.val? at hv
  split at hv
  · next hc =>
    cases hv
    rwa [hc] at hid
  · next d hc =>
    rw [hc] at hid
    exact (hid d rfl).val v hv
  · cases hv

lemma Whole.callable? (h : st.Whole) (hc : st.callable? id = some c) : c.sig.Whole := by
  have hid := h id
  unfold Store.callable? at hc
  split at hc
  · next hf =>
    cases hc
    rw [hf] at hid
    simpa [Content.Whole, Val.isWhole] using hid
  · next d hd =>
    rw [hd] at hid
    exact (hid d rfl).callable c hc
  · cases hc

lemma Whole.typeOf (h : st.Whole) (id : Nat) : (st.typeOf id).Whole := by
  induction id using Nat.strong_induction_on with
  | _ id ih =>
    have hbelow (i : Nat) : (if _ : i < id then st.typeOf i else .void).Whole := by
      split
      · next hi => exact ih i hi
      · exact .plain rfl
    have hid := h id
    rw [Store.typeOf]
    split
    · next v hc =>
      rw [hc] at hid
      exact Val.typesIn_isWhole.typeOf_mem v hid
    · next d hc =>
      rw [hc] at hid
      cases d with
      | none => exact .plain rfl
      | some d => exact (hid d rfl).typ
    · exact hbelow _
    · exact .plain rfl
    · next args _ =>
      cases args.getLast? with
      | none => exact .plain rfl
      | some a => exact hbelow a
    · exact .plain rfl
    · next c hc =>
      rw [hc] at hid
      exact (Call.Whole.typ hid).result

end Store

end Resolvent
