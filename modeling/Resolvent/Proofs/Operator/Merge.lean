import Resolvent.Proofs.Session.Run
import Mathlib.Data.List.Induction

/-!
# Merging dicts

Merging sets the entries of all dicts in turn.
-/

namespace Resolvent

open List

lemma eraseDups_concat (ks : List String) (k : String) :
    (ks ++ [k]).eraseDups = if k ∈ ks then ks.eraseDups else ks.eraseDups ++ [k] := by
  rw [eraseDups_append]
  split <;> simp_all [removeAll, eraseDups_cons]

lemma eraseDups_append_eraseDups (js ks : List String) :
    (js ++ ks.eraseDups).eraseDups = (js ++ ks).eraseDups := by
  induction ks using reverseRecOn with
  | nil => rfl
  | append_singleton ks k ih =>
    rw [eraseDups_concat, ← append_assoc, eraseDups_concat, ← ih]
    split
    · next h => rw [if_pos (mem_append_right js h)]
    · rw [← append_assoc, eraseDups_concat]
      simp

namespace Reduce

variable {es fs : List (String × Val)}

lemma keys_setEntry (k : String) (v : Val) (es : List (String × Val)) :
    (setEntry k v es).map Prod.fst = if k ∈ es.map Prod.fst then es.map Prod.fst
    else es.map Prod.fst ++ [k] := by
  fun_induction setEntry k v es with
  | case1 => simp
  | case2 => simp
  | case3 i w rest h ih =>
    have h' : k ≠ i := Ne.symm h
    simp only [map_cons, ih, mem_cons, h', false_or]
    split <;> simp

lemma lookup_setEntry (k : String) (v : Val) (es : List (String × Val)) (j : String) :
    (setEntry k v es).lookup j = if j = k then some v else es.lookup j := by
  fun_induction setEntry k v es with
  | case1 => grind
  | case2 => grind
  | case3 i w rest h ih => grind

def union (es : List (String × Val)) : List (String × Val) :=
  es.foldl (fun acc e => setEntry e.1 e.2 acc) []

lemma union_append (es fs : List (String × Val)) :
    union (es ++ fs) = fs.foldl (fun acc e => setEntry e.1 e.2 acc) (union es) :=
  foldl_append

lemma union_concat (es : List (String × Val)) (e : String × Val) :
    union (es ++ [e]) = setEntry e.1 e.2 (union es) :=
  union_append es [e]

lemma keys_union (es : List (String × Val)) :
    (union es).map Prod.fst = (es.map Prod.fst).eraseDups := by
  induction es using reverseRecOn with
  | nil => rfl
  | append_singleton es e ih =>
    rw [union_concat, keys_setEntry, ih, map_append, map_singleton, eraseDups_concat]
    simp only [mem_eraseDups]

lemma lookup_union (es : List (String × Val)) (k : String) :
    (union es).lookup k = es.reverse.lookup k := by
  induction es using reverseRecOn with
  | nil => rfl
  | append_singleton es e ih =>
    rw [union_concat, lookup_setEntry, ih, reverse_append, reverse_singleton, singleton_append]
    grind

lemma nodup_keys_union (es : List (String × Val)) : ((union es).map Prod.fst).Nodup := by
  induction es using reverseRecOn with
  | nil => exact nodup_nil
  | append_singleton es e ih =>
    rw [union_concat, keys_setEntry]
    split
    · exact ih
    · next h => grind

lemma lookup_reverse (h : (es.map Prod.fst).Nodup) (k : String) :
    es.reverse.lookup k = es.lookup k := by
  induction es with
  | nil => rfl
  | cons e es ih =>
    obtain ⟨hne, h⟩ := nodup_cons.1 h
    rw [reverse_cons, lookup_append, ih h]
    grind

lemma ext_of_lookup (hes : (es.map Prod.fst).Nodup) (hkeys : es.map Prod.fst = fs.map Prod.fst)
    (hlookup : ∀ k, es.lookup k = fs.lookup k) : es = fs := by
  induction es generalizing fs with
  | nil => simpa using hkeys.symm
  | cons e es ih =>
    obtain ⟨f, fs, rfl⟩ : ∃ f fs', fs = f :: fs' :=
      exists_cons_of_ne_nil (by rintro rfl; simp at hkeys)
    obtain ⟨k, v⟩ := e
    obtain ⟨j, w⟩ := f
    obtain ⟨rfl, htail⟩ : k = j ∧ es.map Prod.fst = fs.map Prod.fst := by simpa using hkeys
    obtain rfl : v = w := by simpa using hlookup k
    obtain ⟨hne, hes⟩ := nodup_cons.1 hes
    rw [ih hes htail fun i => ?_]
    by_cases hi : i = k
    · have hnone {gs : List (String × Val)} (h : k ∉ gs.map Prod.fst) : gs.lookup k = none :=
        lookup_eq_none_iff.2 fun p hp => by grind
      rw [hi, hnone hne, hnone (htail ▸ hne)]
    · simpa [lookup_cons, beq_eq_false_iff_ne.2 hi] using hlookup i

lemma union_nested (es fs gs : List (String × Val)) :
    union (es ++ union fs ++ gs) = union (es ++ fs ++ gs) := by
  have h : union (es ++ union fs) = union (es ++ fs) := by
    refine ext_of_lookup (nodup_keys_union _) ?_ fun k => ?_
    · rw [keys_union, keys_union, map_append, keys_union, eraseDups_append_eraseDups, map_append]
    · rw [lookup_union, lookup_union, reverse_append, reverse_append, lookup_append, lookup_append,
        lookup_reverse (nodup_keys_union fs), lookup_union]
  rw [union_append, h, ← union_append]

lemma merge_eq (dicts : List (List (String × Val))) :
    merge (dicts.map .dict) = .ok (.dict (union dicts.flatten)) := by
  have hfold (acc : List (String × Val)) : (dicts.map .dict).foldlM mergeInto acc =
      .ok (dicts.flatten.foldl (fun acc e => setEntry e.1 e.2 acc) acc) := by
    induction dicts generalizing acc with
    | nil => rfl
    | cons es dicts ih => rw [flatten_cons, foldl_append, ← ih]; rfl
  rw [merge, hfold]
  rfl

/-- Merging gives the union of the dicts: each key once, in the order in which the keys are met
first, with the last value that it is met with. So a call of `merge` on arguments that are dicts has
that value, and merging is associative. -/
theorem merge_union {steps : Steps} {scope : Scope} {call : Call} {s s' : Session}
    {args : List (List Val)} {dicts : List (List (String × Val))}
    (hargs : (Run.evalGroups steps scope call.groups).exec s = (.ok args, s'))
    (hdicts : args.flatten = dicts.map .dict) (id : Nat) (hint : Ty) (a b c : List (String × Val)) :
    (∃ out, (Operator.evalBuiltin .merge steps scope id call hint).exec s = (.ok (.dict out), s') ∧
      merge (dicts.map .dict) = .ok (.dict out) ∧ (out.map Prod.fst).Nodup ∧
      out.map Prod.fst = (dicts.flatten.map Prod.fst).eraseDups ∧
      ∀ k, out.lookup k = dicts.flatten.reverse.lookup k) ∧
    (merge [.dict a, .dict b] >>= fun ab => merge [ab, .dict c]) =
    merge [.dict a, .dict b, .dict c] ∧
    (merge [.dict b, .dict c] >>= fun bc => merge [.dict a, bc]) =
    merge [.dict a, .dict b, .dict c] := by
  have htwo (x y : List (String × Val)) : merge [.dict x, .dict y] =
    .ok (.dict (union (x ++ y))) := by
    simpa using merge_eq [x, y]
  have hthree : merge [.dict a, .dict b, .dict c] = .ok (.dict (union (a ++ b ++ c))) := by
    simpa using merge_eq [a, b, c]
  refine ⟨⟨union dicts.flatten, ?_, merge_eq dicts, nodup_keys_union _, keys_union _,
    lookup_union _⟩, ?_, ?_⟩
  · change (Run.evalGroups steps scope call.groups >>= fun args =>
      Operator.reduced (merge args.flatten) (s.store.span id)).exec s = _
    rw [Run.exec_bind_of_ok hargs, hdicts, merge_eq]
    rfl
  · have hnested : union (union (a ++ b) ++ c) = union (a ++ b ++ c) := union_nested [] (a ++ b) c
    rw [htwo, hthree, ← hnested]
    exact htwo _ c
  · have hnested : union (a ++ union (b ++ c)) = union (a ++ b ++ c) := by
      simpa using union_nested a (b ++ c) []
    rw [htwo, hthree, ← hnested]
    exact htwo a _

/-- Three dicts in two groups of arguments, with keys that are met again. -/
theorem merge_union_groups :
    let dicts := [[("x", .int 1), ("y", .int 2)], [("z", .int 3), ("x", .int 4)],
      [("y", .null), ("y", .int 5)]]
    let args : List (List Val) :=
      [[.dict (dicts.getD 0 []), .dict (dicts.getD 1 [])], [.dict (dicts.getD 2 [])]]
    let steps : Steps :=
      ⟨fun _ _ _ => pure 0, fun _ id _ => pure (.dict (dicts.getD id [])),
        fun _ _ _ _ => pure .null⟩
    let call : Call := ⟨⟨.any, .builtin .merge, 0⟩, [[0, 1], [2]], none⟩
    let s := Session.new {} false
    (Run.evalGroups steps [] call.groups).exec s = (.ok args, s) ∧ args.flatten = dicts.map .dict ∧
    ∃ out, (Operator.evalBuiltin .merge steps [] 0 call .void).exec s = (.ok (.dict out), s) ∧
      out.map Prod.fst = ["x", "y", "z"] ∧ out.lookup "y" = some (.int 5) := by
  intro dicts args steps call s
  have hargs : (Run.evalGroups steps [] call.groups).exec s = (.ok args, s) := rfl
  have hdicts : args.flatten = dicts.map .dict := rfl
  obtain ⟨⟨out, heval, -, -, hkeys, hlookup⟩, -⟩ := merge_union hargs hdicts 0 .void [] [] []
  exact ⟨hargs, hdicts, out, heval, hkeys, hlookup "y"⟩

end Reduce

end Resolvent
