import Resolvent.Proofs.Ty.Equality
import Resolvent.Ty.Equality
import Mathlib.Data.List.Induction

/-!
# Candidates of alternatives

An alternative is flat, and of equal candidates it has the first one only.
-/

namespace Resolvent.Ty

open List

variable {t : Ty} {ts xs ys cands : List Ty}

lemma mem_foldl_addCandidate (h : t ∈ ts.foldl addCandidate cands) : t ∈ cands ∨ t ∈ ts := by
  induction ts generalizing cands with
  | nil => exact .inl h
  | cons u ts ih =>
    rcases ih h with h | h
    · unfold addCandidate at h
      split at h
      · exact .inl h
      · rcases mem_append.1 h with h | h
        · exact .inl h
        · exact .inr (by simp_all)
    · exact .inr (by simp [h])

lemma foldl_addCandidate_again (ts : List Ty) (h : cands.foldl addCandidate [] = cands) :
    (ts.foldl addCandidate cands).foldl addCandidate [] = ts.foldl addCandidate cands := by
  induction ts generalizing cands with
  | nil => exact h
  | cons u ts ih =>
    refine ih ?_
    by_cases hnew : cands.any (equal · u)
    · rwa [addCandidate, if_pos hnew]
    · rw [addCandidate, if_neg hnew, foldl_append, h, foldl_cons, foldl_nil, addCandidate,
        if_neg hnew]

lemma foldl_addCandidate_of_subset (h : ts ⊆ cands) : ts.foldl addCandidate cands = cands := by
  induction ts with
  | nil => rfl
  | cons u ts ih =>
    have hu : cands.any (equal · u) := List.any_eq_true.2 ⟨u, h (by simp), equal_self u⟩
    rw [foldl_cons, addCandidate, if_pos hu, ih fun t ht => h (by simp [ht])]

def flat (ts : List Ty) : List Ty := (ts.flatMap candidates).foldl addCandidate []

lemma mem_flatMap_of_mem_flat (h : t ∈ flat ts) : t ∈ ts.flatMap candidates :=
  (mem_foldl_addCandidate h).resolve_left (by simp)

lemma flat_append (xs ys : List Ty) :
    flat (xs ++ ys) = (ys.flatMap candidates).foldl addCandidate (flat xs) := by
  rw [flat, flatMap_append, foldl_append, flat]

lemma alt_eq (ts : List Ty) : alt ts = match flat ts with
      | [t] => t
      | cands => detailed .alt "" (cands.map fun c => ("", c)) [] := rfl

lemma alt_congr (h : flat xs = flat ys) : alt xs = alt ys := by rw [alt_eq, alt_eq, h]

lemma alt_induct {P Q : Ty → Prop} (hts : ∀ t ∈ ts, P t)
    (hparts : ∀ t, P t → t.kind.isAlt → ∀ p ∈ t.params, P p.2)
    (one : ∀ t, P t → Q t) (many : ∀ cands : List Ty, (∀ c ∈ cands, P c) →
    Q (detailed .alt "" (cands.map fun c => ("", c)) [])) : Q (alt ts) := by
  have hflat : ∀ t ∈ flat ts, P t := by
    intro t ht
    obtain ⟨u, hu, ht⟩ := mem_flatMap.1 (mem_flatMap_of_mem_flat ht)
    unfold candidates at ht
    split at ht
    · next halt =>
      obtain ⟨p, hp, rfl⟩ := mem_map.1 ht
      exact hparts u (hts u hu) halt p hp
    · rw [mem_singleton.1 ht]
      exact hts u hu
  rw [alt_eq]
  split
  · next t heq => exact one t (hflat t (by simp [heq]))
  · exact many _ hflat

lemma flatMap_candidates (h : ∀ t ∈ ts, t.kind.isAlt = false) : ts.flatMap candidates = ts := by
  induction ts with
  | nil => rfl
  | cons t ts ih =>
    rw [flatMap_cons, ih fun u hu => h u (by simp [hu]), candidates, h t (by simp)]
    rfl

/-! ## Types without self references -/

open Classical in
lemma addCandidate_eq (hcands : ∀ c ∈ cands, c.selfFree) (ht : t.selfFree) :
    addCandidate cands t = if t ∈ cands then cands else cands ++ [t] := by
  refine if_congr ?_ rfl rfl
  rw [List.any_eq_true]
  constructor
  · rintro ⟨c, hc, heq⟩
    exact eq_of_equal (hcands c hc) ht heq ▸ hc
  · exact fun h => ⟨t, h, equal_self t⟩

lemma mem_foldl_addCandidate_iff (hcands : ∀ c ∈ cands, c.selfFree) (hts : ∀ t ∈ ts, t.selfFree) :
    t ∈ ts.foldl addCandidate cands ↔ t ∈ cands ∨ t ∈ ts := by
  induction ts generalizing cands with
  | nil => simp
  | cons u ts ih =>
    rw [forall_mem_cons] at hts
    rw [foldl_cons, addCandidate_eq hcands hts.1, ih ?_ hts.2] <;> grind

lemma foldl_addCandidate_foldl (hcands : ∀ c ∈ cands, c.selfFree) (hts : ∀ t ∈ ts, t.selfFree) :
    (ts.foldl addCandidate []).foldl addCandidate cands = ts.foldl addCandidate cands := by
  induction ts using reverseRecOn with
  | nil => rfl
  | append_singleton ts t ih =>
    rw [forall_mem_append, forall_mem_singleton] at hts
    have hmem {c : Ty} {cs : List Ty} (hcs : ∀ c ∈ cs, c.selfFree) : c ∈ ts.foldl addCandidate cs ↔
      c ∈ cs ∨ c ∈ ts := mem_foldl_addCandidate_iff hcs hts.1
    have hfirst : ∀ c ∈ ts.foldl addCandidate [], c.selfFree := by grind
    simp only [foldl_concat]
    rw [addCandidate_eq hfirst hts.2]
    split
    · rw [addCandidate_eq (by grind) hts.2, ih hts.1, if_pos (by grind)]
    · rw [foldl_concat, ih hts.1]

lemma pairwise_foldl_addCandidate (hts : ∀ t ∈ ts, t.selfFree) :
    (ts.foldl addCandidate []).Pairwise fun a b => ts.findIdx (equal · a) <
    ts.findIdx (equal · b) := by
  induction ts using reverseRecOn with
  | nil => exact .nil
  | append_singleton ts t ih =>
    rw [forall_mem_append, forall_mem_singleton] at hts
    have hmem {c : Ty} : c ∈ ts.foldl addCandidate [] ↔ c ∈ [] ∨ c ∈ ts :=
      mem_foldl_addCandidate_iff (by simp) hts.1
    have hlt {c} (hc : c ∈ ts) : ts.findIdx (equal · c) < ts.length :=
      findIdx_lt_length_of_exists ⟨c, hc, equal_self c⟩
    have hold {c} (hc : c ∈ ts) : (ts ++ [t]).findIdx (equal · c) = ts.findIdx (equal · c) := by
      rw [findIdx_append, if_pos (hlt hc)]
    have hkept := (ih hts.1).imp_of_mem (S := fun a b => (ts ++ [t]).findIdx (equal · a) <
      (ts ++ [t]).findIdx (equal · b)) fun ha hb h => by rwa [hold (by grind), hold (by grind)]
    rw [foldl_concat, addCandidate_eq (by grind) hts.2]
    split
    · exact hkept
    · next hnew =>
      -- A new candidate is met first where it stands, behind all others.
      have hlast : ts.findIdx (equal · t) = ts.length :=
        findIdx_eq_length_of_false fun u hu => Bool.eq_false_iff.2 fun h => by grind [eq_of_equal]
      refine pairwise_append.2 ⟨hkept, pairwise_singleton _ _, fun c hc u hu => ?_⟩
      rw [mem_singleton.1 hu, hold (by grind), findIdx_append, hlast, if_neg (by omega)]
      have := hlt (c := c) (by grind)
      omega

lemma flat_spec (h : ∀ t ∈ ts.flatMap candidates, t.selfFree) :
    (∀ t, t ∈ flat ts ↔ t ∈ ts.flatMap candidates) ∧ (flat ts).Nodup := by
  refine ⟨fun t => (mem_foldl_addCandidate_iff (by simp) h).trans (by simp),
    (pairwise_foldl_addCandidate h).imp ?_⟩
  rintro a _ hlt rfl
  exact Nat.lt_irrefl _ hlt

/-! ## Alternatives of alternatives -/

/-- The type is no alternative, or `alt` made it of such types. -/
inductive AltBuilt : Ty → Prop where
  | other {t : Ty} (h : t.kind.isAlt = false) : AltBuilt t
  | alt {ts : List Ty} (h : ∀ t ∈ ts, AltBuilt t) : AltBuilt (alt ts)

lemma candidates_alt (h : ∀ t ∈ ts.flatMap candidates, t.kind.isAlt = false) :
    (alt ts).candidates = flat ts := by
  rw [alt_eq]
  split
  · next t heq =>
    rw [candidates, h t (mem_flatMap_of_mem_flat (by simp [heq])), heq]
    rfl
  · exact (List.map_map ..).trans (List.map_id _)

lemma AltBuilt.isAlt_of_mem (h : t.AltBuilt) : ∀ c ∈ t.candidates, c.kind.isAlt = false := by
  induction h with
  | other h => simp [candidates, h]
  | alt _ ih =>
    have hplain := forall_mem_flatMap.2 ih
    rw [candidates_alt hplain]
    exact fun c hc => hplain c (mem_flatMap_of_mem_flat hc)

lemma selfFree_of_mem_candidates (h : t.selfFree) : ∀ c ∈ t.candidates, c.selfFree := by
  intro c hc
  unfold candidates at hc
  split at hc
  · obtain ⟨p, hp, rfl⟩ := mem_map.1 hc
    exact (selfFree_iff.1 h).2 p hp
  · rwa [mem_singleton.1 hc]

lemma alt_singleton_append (h : (alt xs).candidates = flat xs) :
    alt ([alt xs] ++ ys) = alt (xs ++ ys) := by
  refine alt_congr ?_
  rw [flat_append, flat_append, flat, flatMap_singleton, h, flat, foldl_addCandidate_again _ rfl]

lemma alt_append_singleton (hself : ∀ t ∈ (xs ++ ys).flatMap candidates, t.selfFree)
    (h : (alt ys).candidates = flat ys) : alt (xs ++ [alt ys]) = alt (xs ++ ys) := by
  rw [flatMap_append, forall_mem_append] at hself
  refine alt_congr ?_
  rw [flat_append, flat_append, flatMap_singleton, h]
  exact foldl_addCandidate_foldl (fun c hc => hself.1 c (mem_flatMap_of_mem_flat hc)) hself.2

/-- Building alternatives is associative and gives a normal form: no alternative and no two equal
types are among the candidates, which stand in the order of their first occurrences, and a type that
is the only candidate stands for itself. -/
theorem alt_append (hself : ∀ t ∈ xs ++ ys, t.selfFree) (hbuilt : ∀ t ∈ xs ++ ys, t.AltBuilt) :
    alt (xs ++ ys) = alt ([alt xs] ++ ys) ∧ alt (xs ++ ys) = alt (xs ++ [alt ys]) ∧
      (∀ c ∈ (alt (xs ++ ys)).candidates, c.kind.isAlt = false) ∧
      ((alt (xs ++ ys)).candidates.Pairwise fun a b => equal a b = false) ∧
      (∀ t, t ∈ (alt (xs ++ ys)).candidates ↔ t ∈ (xs ++ ys).flatMap candidates) ∧
      ((alt (xs ++ ys)).candidates.Pairwise fun a b =>
        ((xs ++ ys).flatMap candidates).findIdx (equal · a) <
        ((xs ++ ys).flatMap candidates).findIdx (equal · b)) ∧
      ∀ t ∈ (xs ++ ys).flatMap candidates, (∀ c ∈ (xs ++ ys).flatMap candidates, equal c t) →
      alt (xs ++ ys) = t := by
  have hcands {zs} (h : zs ⊆ xs ++ ys) : (alt zs).candidates = flat zs :=
    candidates_alt (List.forall_mem_flatMap.2 fun t ht => (hbuilt t (h ht)).isAlt_of_mem)
  have hfree := List.forall_mem_flatMap.2 fun t ht => selfFree_of_mem_candidates (hself t ht)
  obtain ⟨hmem, hnodup⟩ := flat_spec hfree
  have heq {a b} (ha : a ∈ flat (xs ++ ys)) (hb : b ∈ flat (xs ++ ys)) : equal a b → a = b :=
    eq_of_equal (hfree a ((hmem a).1 ha)) (hfree b ((hmem b).1 hb))
  have hapart : (flat (xs ++ ys)).Pairwise fun a b => equal a b = false :=
    hnodup.imp_of_mem fun ha hb hne => Bool.eq_false_iff.2 fun h => hne (heq ha hb h)
  refine ⟨(alt_singleton_append (hcands (by simp))).symm,
    (alt_append_singleton hfree (hcands (by simp))).symm, (AltBuilt.alt hbuilt).isAlt_of_mem, ?_⟩
  rw [hcands (List.Subset.refl _)]
  refine ⟨hapart, hmem, pairwise_foldl_addCandidate hfree, fun t ht hone => ?_⟩
  -- All candidates are `t`, so there is no second one.
  have hall (c) (hc : c ∈ flat (xs ++ ys)) : c = t :=
    heq hc ((hmem t).2 ht) (hone c ((hmem c).1 hc))
  rw [alt_eq]
  cases hcs : flat (xs ++ ys) with
  | nil => exact absurd ((hmem t).2 ht) (by simp [hcs])
  | cons c cs =>
    cases cs with
    | nil => exact hall c (by simp [hcs])
    | cons d cs =>
      exact absurd ((hall c (by simp [hcs])).trans (hall d (by simp [hcs])).symm) (by grind)

theorem alt_append_numbers : alt ([list int, alt [str, int]] ++ [int, alt [real, str]]) =
    alt ([list int, alt [str, int]] ++ [alt [int, alt [real, str]]]) := by
  have hbuilt (ts : List Ty) (h : ts.all (!·.kind.isAlt)) : (alt ts).AltBuilt :=
    .alt fun t ht => .other (by simpa using List.all_eq_true.1 h t ht)
  refine (alt_append (by decide) ?_).2.1
  rw [← List.forall_iff_forall_mem]
  exact ⟨.other rfl, hbuilt _ rfl, .other rfl, hbuilt _ rfl⟩

end Resolvent.Ty
