import Mathlib.Data.List.Perm.Subperm
import Resolvent.Element.Reader

/-!
# The equality of literal data

Two dicts are equal if they have as many entries and each entry of the first is found in the second,
by the first entry with its key.
-/

namespace Resolvent.Val

open List

/-- The value is made of the given values by lists and dicts of the given class. -/
inductive Built (leaf cont : Val → Prop) : Val → Prop
  | leaf {v : Val} : leaf v → Built leaf cont v
  | list {items : List Val} : cont (.list items) → (∀ v ∈ items, Built leaf cont v) →
      Built leaf cont (.list items)
  | dict {entries : List (String × Val)} :
    cont (.dict entries) → (∀ p ∈ entries, Built leaf cont p.2) → Built leaf cont (.dict entries)

/-- Null, a truth value or a text. -/
def Plain (v : Val) : Prop := v = null ∨ (∃ b, v = bool b) ∨ ∃ s, v = str s

/-- No key stands twice in the value, if it is a dict. -/
def Distinct : Val → Prop
  | dict entries => (entries.map (·.1)).Nodup
  | _ => True

/-! ## What equality compares -/

section Compare

variable {xs ys : List Val} {es fs : List (String × Val)} {v w : Val} {k : String}

lemma equalItems_iff : xs.length = ys.length ∧ equalItems xs ys = true ↔
    Forall₂ (fun x y => x.equal y) xs ys := by
  induction xs generalizing ys with
  | nil => cases ys <;> simp [equalItems]
  | cons x xs ih => cases ys with
    | nil => simp
    | cons y ys =>
      rw [forall₂_cons, ← ih]
      simp only [length_cons, Nat.succ_inj, equalItems, Bool.and_eq_true]
      tauto

lemma equalEntries_iff : equalEntries es fs = true ↔ ∀ p ∈ es, ∃ w, (dict fs).field? p.1 = some w ∧
    p.2.equal w := by
  induction es with
  | nil => simp [equalEntries]
  | cons p es ih =>
    rw [equalEntries, Bool.and_eq_true, ih, forall_mem_cons]
    cases (dict fs).field? p.1 <;> simp

lemma equal_list_iff : (list xs).equal v ↔ ∃ ys, v = list ys ∧
    Forall₂ (fun x y => x.equal y) xs ys := by
  cases v <;> simp [equal, number?, ← equalItems_iff]

lemma equal_dict_iff : (dict es).equal v ↔ ∃ fs, v = dict fs ∧ es.length = fs.length ∧
    ∀ p ∈ es, ∃ w, (dict fs).field? p.1 = some w ∧ p.2.equal w := by
  cases v <;> simp [equal, number?, ← equalEntries_iff, -Prod.forall]

lemma Plain.equal_iff (hv : v.Plain) : v.equal w ↔ v = w := by
  obtain rfl | ⟨b, rfl⟩ | ⟨s, rfl⟩ := hv <;> cases w <;> simp [equal, number?]

lemma mem_of_field? (h : (dict es).field? k = some v) : (k, v) ∈ es := by
  obtain ⟨⟨k', v'⟩, hfound, rfl⟩ := Option.map_eq_some_iff.1 h
  have hkey : k' = k := by simpa using find?_some hfound
  exact hkey ▸ mem_of_find?_eq_some hfound

lemma field?_of_mem (hkeys : (es.map (·.1)).Nodup) (h : (k, v) ∈ es) :
    (dict es).field? k = some v := by
  induction es with
  | nil => cases h
  | cons p es ih =>
    obtain ⟨hfresh, hkeys⟩ := nodup_cons.1 hkeys
    obtain rfl | hmem := mem_cons.1 h
    · simp [field?]
    · have hne : p.1 ≠ k := fun heq => hfresh (mem_map.2 ⟨(k, v), hmem, heq.symm⟩)
      have := ih hkeys hmem
      simpa [field?, hne] using this

end Compare

/-! ## The laws -/

section Laws

variable {cont : Val → Prop} {a b c : Val}

lemma Built.equal_refl (ha : a.Built Plain Distinct) : a.equal a := by
  induction ha with
  | leaf hv => exact hv.equal_iff.2 rfl
  | list _ _ ih => exact equal_list_iff.2 ⟨_, rfl, forall₂_same.2 ih⟩
  | dict hkeys _ ih =>
    exact equal_dict_iff.2 ⟨_, rfl, rfl, fun p hp => ⟨p.2, field?_of_mem hkeys hp, ih p hp⟩⟩

lemma keys_perm {es fs : List (String × Val)} (hkeys : (es.map (·.1)).Nodup)
    (hlen : es.length = fs.length)
    (hfound : ∀ p ∈ es, ∃ w, (dict fs).field? p.1 = some w ∧ p.2.equal w) :
    (es.map (·.1)).Perm (fs.map (·.1)) := by
  have hsub : es.map (·.1) ⊆ fs.map (·.1) := by
    intro k hk
    obtain ⟨p, hp, rfl⟩ := mem_map.1 hk
    obtain ⟨w, hw, -⟩ := hfound p hp
    exact mem_map.2 ⟨(p.1, w), mem_of_field? hw, rfl⟩
  exact (subperm_of_subset hkeys hsub).perm_of_length_le (by simp [hlen])

lemma Built.equal_symm (ha : a.Built Plain Distinct) (h : a.equal b) : b.equal a := by
  induction ha generalizing b with
  | leaf hv =>
    obtain rfl := hv.equal_iff.1 h
    exact h
  | @list xs _ _ ih =>
    obtain ⟨ys, rfl, hall⟩ := equal_list_iff.1 h
    refine equal_list_iff.2 ⟨xs, rfl, Forall₂.flip ?_⟩
    exact ((forall₂_and_left xs ys).2 ⟨ih, hall⟩).imp fun x y hxy => hxy.1 hxy.2
  | @dict es hkeys _ ih =>
    obtain ⟨fs, rfl, hlen, hfound⟩ := equal_dict_iff.1 h
    have hperm := keys_perm hkeys hlen hfound
    refine equal_dict_iff.2 ⟨es, rfl, hlen.symm, fun q hq => ?_⟩
    -- The entry of the first dict under the same key finds `q`, as the keys of the second are not
    -- repeated either.
    obtain ⟨p, hp, hpq⟩ := mem_map.1 (hperm.mem_iff.2 (List.mem_map_of_mem hq))
    obtain ⟨w, hw, heq⟩ := hfound p hp
    have hwq : w = q.2 := by
      have := field?_of_mem (hperm.nodup_iff.1 hkeys) (k := q.1) (v := q.2) hq
      simpa [hpq ▸ hw] using this
    exact ⟨p.2, hpq ▸ field?_of_mem hkeys hp, ih p hp (hwq ▸ heq)⟩

lemma Built.equal_trans (ha : a.Built Plain cont) (hab : a.equal b) (hbc : b.equal c) :
    a.equal c := by
  induction ha generalizing b c with
  | leaf hv =>
    obtain rfl := hv.equal_iff.1 hab
    exact hbc
  | @list xs _ _ ih =>
    obtain ⟨ys, rfl, hxy⟩ := equal_list_iff.1 hab
    obtain ⟨zs, rfl, hyz⟩ := equal_list_iff.1 hbc
    refine equal_list_iff.2 ⟨zs, rfl, ?_⟩
    rw [forall₂_iff_get] at hxy hyz ⊢
    refine ⟨hxy.1.trans hyz.1, fun i hi hi' => ?_⟩
    exact ih _ (List.get_mem _ _) (hxy.2 i hi (hxy.1 ▸ hi)) (hyz.2 i (hxy.1 ▸ hi) hi')
  | @dict es _ _ ih =>
    obtain ⟨fs, rfl, hlen, hfound⟩ := equal_dict_iff.1 hab
    obtain ⟨gs, rfl, hlen', hfound'⟩ := equal_dict_iff.1 hbc
    refine equal_dict_iff.2 ⟨gs, rfl, hlen.trans hlen', fun p hp => ?_⟩
    obtain ⟨w, hw, hpw⟩ := hfound p hp
    obtain ⟨u, hu, hwu⟩ := hfound' _ (mem_of_field? hw)
    exact ⟨u, hu, ih p hp hpw hwu⟩

/-- Equality of literal data is transitive. It is reflexive and symmetric for values that repeat no
key in a dict. -/
theorem plain_equivalence (a b c : Val) : (a.Built Plain Distinct → a.equal a) ∧
    (a.Built Plain Distinct → a.equal b → b.equal a) ∧
    (a.Built Plain (fun _ => True) → a.equal b → b.equal c → a.equal c) :=
  ⟨Built.equal_refl, Built.equal_symm, Built.equal_trans⟩

end Laws

theorem plain_equivalence_nested :
    let a := dict [("k", list [null, bool true]), ("m", dict [("k", str "s")])]
    let b := dict [("m", dict [("k", str "s")]), ("k", list [null, bool true])]
    a.equal a ∧ b.equal a ∧ (a.equal b → b.equal a → a.equal a) := by
  intro a b
  have hbuilt : ∀ cont : Val → Prop, (∀ v, Distinct v → cont v) → a.Built Plain cont := by
    intro cont hcont
    have hlist : (list [null, bool true]).Built Plain cont :=
      .list (hcont _ trivial) (by simpa using ⟨.leaf (.inl rfl), .leaf (.inr (.inl ⟨_, rfl⟩))⟩)
    have hdict : (dict [("k", str "s")]).Built Plain cont :=
      .dict (hcont _ (by simp [Distinct])) (by simpa using .leaf (.inr (.inr ⟨_, rfl⟩)))
    exact .dict (hcont _ (by simp [Distinct])) (by simpa using ⟨hlist, hdict⟩)
  have hdistinct := hbuilt Distinct fun _ h => h
  have hab : a.equal b := by simp [a, b, equal, equalItems, equalEntries, field?]
  exact ⟨(plain_equivalence a b a).1 hdistinct, (plain_equivalence a b a).2.1 hdistinct hab,
    (plain_equivalence a b a).2.2 (hbuilt _ fun _ _ => trivial)⟩

lemma read_twice : (match Form.read "{a:true a:false}" with
      | .ok [.literal (.dict [(k, .bool true), (l, .bool false)]) _] => k == "a" && l == "a"
      | _ => false) = true := by
  decide +kernel

/-- A dict can be read with a key twice, and then it need not equal itself, nor be equalled by a
dict that it equals. -/
theorem repeated_keys : let twice := dict [("a", bool true), ("a", bool false)]
    let same := dict [("a", bool true), ("a", bool true)]
    let other := dict [("a", bool true), ("b", bool true)]
    (∃ span, Form.read "{a:true a:false}" = .ok [.literal twice span]) ∧ twice.equal twice = false ∧
      same.equal other = true ∧ other.equal same = false := by
  refine ⟨?_, by simp [equal, equalEntries, field?]⟩
  have hread := read_twice
  split at hread
  · next heq =>
    simp only [Bool.and_eq_true, beq_iff_eq] at hread
    obtain ⟨rfl, rfl⟩ := hread
    exact ⟨_, heq⟩
  · cases hread

end Resolvent.Val
