import Resolvent.Proofs.Element.Reader
import Resolvent.Proofs.Session.Rest
import Resolvent.Proofs.Session.Run
import Resolvent.Proofs.Subst.History

/-!
# Orderly sessions

`Keeps m s P` says that the steps `m` leave every element of the session `s` as it is, add only
elements that fit, and end in a result of which `P` holds or in a failure; a failure that reports a
residual reports an element.
-/

namespace Resolvent

namespace Session

variable {s s' s'' : Session}

/-- Every element of the session fits the elements before it. -/
def Orderly (s : Session) : Prop := s.store.Orderly s.catalog

/-- The second session has all elements of the first and is orderly. -/
structure Grown (s s' : Session) : Prop where
  store : s.store.Kept s'.store
  orderly : s'.Orderly
  catalog : s'.catalog = s.catalog
  lenient : s'.lenient = s.lenient
  subst : s.subst.Sound → s'.subst.Sound

lemma Grown.refl (h : s.Orderly) : Grown s s := ⟨.refl _, h, rfl, rfl, id⟩

lemma Grown.trans (h : Grown s s') (h' : Grown s' s'') : Grown s s'' :=
  ⟨h.store.trans h'.store, h'.orderly, h'.catalog.trans h.catalog, h'.lenient.trans h.lenient,
    h'.subst ∘ h.subst⟩

lemma Grown.lt_size {id : Nat} (h : Grown s s') (hid : id < s.store.size) : id < s'.store.size :=
  hid.trans_le h.store.size_le

lemma Grown.of_store_eq (h : s.Orderly) (hstore : s'.store = s.store)
    (hcatalog : s'.catalog = s.catalog)
    (hlenient : s'.lenient = s.lenient) (hsubst : s.subst.Sound → s'.subst.Sound) : Grown s s' := by
  refine ⟨hstore ▸ .refl _, ?_, hcatalog, hlenient, hsubst⟩
  rwa [Orderly, hstore, hcatalog]

end Session

namespace Run

open Session

variable {α β : Type} {s : Session} {P P' : α → Store → Prop} {Q : β → Store → Prop} {id : Nat}
  {span : Span} {scope : Scope} {hint : Ty} {steps : Steps} {c : Call} {m : Run α}

/-- What steps may end in: a result of which `P` holds, or a failure whose residual is an element.
-/
def Reports (P : α → Store → Prop) (r : Except Failure α) (st : Store) : Prop :=
  match r with
  | .ok a => P a st
  | .error e => ∀ el, e = .unresolved el → el < st.size

/-- The steps keep the session orderly, and end in a result of which `P` holds or in a failure. -/
def Keeps (m : Run α) (s : Session) (P : α → Store → Prop) : Prop :=
  Ends m s fun r s' => s.Grown s' ∧ Reports P r s'.store

namespace Keeps

lemma mono (h : Keeps m s P) (hP : ∀ a st, P a st → P' a st) : Keeps m s P' := by
  refine Ends.mono h fun r s' ⟨hg, hr⟩ => ⟨hg, ?_⟩
  cases r with
  | ok a => exact hP a _ hr
  | error e => exact hr

lemma pure {a : α} (h : s.Orderly) (ha : P a s.store) : Keeps (Pure.pure a) s P :=
  Ends.pure ⟨.refl h, ha⟩

lemma bind {k : α → Run β} (h : Keeps m s P)
    (hk : ∀ a s', s.Grown s' → P a s'.store → Keeps (k a) s' Q) : Keeps (m >>= k) s Q := by
  refine Ends.bind h ?_ ?_
  · rintro a s' ⟨hg, ha⟩
    exact Ends.mono (hk a s' hg ha) fun r s'' ⟨hg', hr⟩ => ⟨hg.trans hg', hr⟩
  · rintro e s' ⟨hg, he⟩
    exact ⟨hg, he⟩

lemma ofExcept {x : Except Failure α} {P : α → Prop} (h : s.Orderly) (hx : Definite x P) :
    Keeps (MonadExcept.ofExcept x) s fun a _ => P a := by
  cases x with
  | ok a => exact pure h hx
  | error e => exact Ends.throw ⟨.refl h, fun el he => absurd he (hx el)⟩

lemma solve {m : Solve α} (h : s.Orderly) (hm : m.Safe) (span : Span) :
    Keeps (Run.solve m span) s fun _ _ => True := by
  refine Ends.of_exec (exec_solve m span s) ⟨.of_store_eq h rfl rfl rfl (hm _), ?_⟩
  cases (m.exec s.subst).1 with
  | ok a => trivial
  | error e =>
    intro el he
    cases he

end Keeps

end Run

open Session

structure Call.At (c : Call) (s : Session) (id : Nat) : Prop where
  orderly : s.Orderly
  content : s.store.content id = .call c

namespace Call.At

variable {s s' : Session} {id i a : Nat} {c : Call}

lemma id_lt (h : c.At s id) : id < s.store.size := Store.lt_size_of_content_ne (by simp [h.content])

lemma args_lt (h : c.At s id) : ∀ a ∈ c.groups.flatten, a < s.store.size :=
  fun _ ha => h.orderly.child_lt h.content ha

lemma group_lt (h : c.At s id) (ha : a ∈ c.group i) : a < s.store.size :=
  h.args_lt a (mem_flatten_of_mem_group ha)

lemma arg?_lt (h : c.At s id) (ha : c.arg? i = some a) : a < s.store.size :=
  h.group_lt (List.mem_of_mem_head? ha)

lemma grown (h : c.At s id) (hg : s.Grown s') : c.At s' id :=
  ⟨hg.orderly, hg.store.content h.content nofun⟩

end Call.At

end Resolvent
