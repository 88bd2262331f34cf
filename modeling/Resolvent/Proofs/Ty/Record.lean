import Resolvent.Proofs.Ty.Simple

/-!
# Records of shapes

Objects whose fields have simple types.
-/

namespace Resolvent

open List Option

/-- An object type with fields of simple types, or one of which nothing is known. -/
structure Record where
  optional : Bool
  detail : Option (String × List (String × (Bool × Shape)))

instance : Inhabited Record := ⟨⟨false, none⟩⟩

namespace Record

open Shape (merge typed)

def lookup (fs : List (String × (Bool × Shape))) (k : String) : Option (String × (Bool × Shape)) :=
  fs.find? fun f => Param.key f.1 == k

def fields (r : Record) : List (String × (Bool × Shape)) := (r.detail.map (·.2)).getD []

def get? (r : Record) (k : String) : Option (Bool × Shape) := (lookup r.fields k).map (·.2)

def ty (r : Record) : Ty :=
  match r.detail with
  | none => .plain (Kind.obj.withOptional r.optional)
  | some (name, fs) =>
    .detailed (Kind.obj.withOptional r.optional) name (fs.map fun f => (f.1, typed f.2)) []

/-- The fields have different keys, no name has more than one optional mark, and no type is too
deep. -/
structure Proper (r : Record) : Prop where
  distinct : (r.fields.map fun f => Param.key f.1).Nodup
  keys : ∀ f ∈ r.fields, Param.key (Param.key f.1) = Param.key f.1
  depth : ∀ f ∈ r.fields, f.2.2.depth ≤ Kind.maxDepth

def joinFields (gs : List (String × (Bool × Shape))) : List (String × (Bool × Shape)) →
    Option (List (String × (Bool × Shape)))
  | [] => some []
  | (n, x) :: fs =>
    match lookup gs (Param.key n) with
    | some (m, y) => do
      let z ← merge x y
      let rest ← joinFields gs fs
      return (if Param.isOpt n then m else n, z) :: rest
    | none => joinFields gs fs

def join (r q : Record) : Option Record :=
  match r.detail, q.detail with
  | some (name, fs), some (name', gs) =>
    (joinFields gs fs).map fun hs =>
      ⟨r.optional || q.optional, some (if name = name' then name else "", hs)⟩
  | _, _ => some ⟨r.optional || q.optional, none⟩

variable {r q p : Record} {rs : List Record} {fs gs hs : List (String × (Bool × Shape))}
  {k n : String} {x y z : Bool × Shape} {f e : String × (Bool × Shape)}

/-! ## Fields of a join -/

lemma key_of_lookup (h : lookup fs k = some f) : Param.key f.1 = k := by simpa using find?_some h

lemma key_ite {m : String} (h : Param.key m = Param.key n) (c : Bool) :
    Param.key (if c then m else n) = Param.key n := by
  cases c
  · rfl
  · exact h

lemma lookup_cons (f : String × (Bool × Shape)) (fs : List (String × (Bool × Shape))) (k : String) :
    lookup (f :: fs) k = if Param.key f.1 = k then some f else lookup fs k := by
  simp only [lookup]
  split <;> simp_all

lemma joinFields_cons (h : joinFields gs ((n, x) :: fs) = some hs) :
    (lookup gs (Param.key n) = none ∧ joinFields gs fs = some hs) ∨
      ∃ m y z rest, lookup gs (Param.key n) = some (m, y) ∧ merge x y = some z ∧
      joinFields gs fs = some rest ∧ hs = (if Param.isOpt n then m else n, z) :: rest := by
  rw [joinFields] at h
  cases hg : lookup gs (Param.key n) with
  | none =>
    rw [hg] at h
    exact .inl ⟨rfl, h⟩
  | some g =>
    rw [hg] at h
    obtain ⟨z, hz, h⟩ := bind_eq_some_iff.1 h
    obtain ⟨rest, hrest, h⟩ := bind_eq_some_iff.1 h
    exact .inr ⟨g.1, g.2, z, rest, rfl, hz, hrest, (some.inj h).symm⟩

lemma lookup_joinFields (h : joinFields gs fs = some hs) (k : String) :
    ((lookup hs k).isSome ↔ (lookup fs k).isSome ∧ (lookup gs k).isSome) ∧ (lookup hs k).map (·.2) =
        ((lookup fs k).map (·.2)).bind fun x => ((lookup gs k).map (·.2)).bind fun y =>
        merge x y := by
  induction fs generalizing hs with
  | nil =>
    cases h
    simp [lookup]
  | cons f fs ih =>
    rw [lookup_cons]
    rcases joinFields_cons h with ⟨hg, hrest⟩ | ⟨m, y, z, rest, hg, hz, hrest, rfl⟩
    · rw [(ih hrest).1, (ih hrest).2]
      split
      · next hn => simp [← hn, hg]
      · exact ⟨Iff.rfl, rfl⟩
    · rw [lookup_cons, key_ite (key_of_lookup hg)]
      split
      · next hn => simp [← hn, hg, hz]
      · exact ih hrest

lemma joinFields_eq_none (hdistinct : (fs.map fun f => Param.key f.1).Nodup)
    (h : joinFields gs fs = none) :
    ∃ k f g, lookup fs k = some f ∧ lookup gs k = some g ∧ merge f.2 g.2 = none := by
  induction fs with
  | nil => cases h
  | cons f fs ih =>
    obtain ⟨n, x⟩ := f
    obtain ⟨hn, hdistinct⟩ := nodup_cons.1 hdistinct
    -- A conflict further on is one of another field.
    have hlater (hrest : joinFields gs fs = none) :
        ∃ k f g, lookup ((n, x) :: fs) k = some f ∧ lookup gs k = some g ∧
        merge f.2 g.2 = none := by
      obtain ⟨k, f, g, hf, hg, hmerge⟩ := ih hdistinct hrest
      refine ⟨k, f, g, ?_, hg, hmerge⟩
      rw [lookup_cons, if_neg, hf]
      rintro rfl
      exact hn (List.mem_map.2 ⟨f, mem_of_find?_eq_some hf, key_of_lookup hf⟩)
    rw [joinFields] at h
    cases hg : lookup gs (Param.key n) with
    | none =>
      rw [hg] at h
      exact hlater h
    | some g =>
      obtain ⟨m, y⟩ := g
      rw [hg] at h
      cases hmerge : merge x y with
      | none => exact ⟨Param.key n, (n, x), (m, y), by rw [lookup_cons, if_pos rfl], hg, hmerge⟩
      | some z =>
        cases hrest : joinFields gs fs with
        | none => exact hlater hrest
        | some rest => simp [hmerge, hrest] at h

lemma of_mem_joinFields (h : joinFields gs fs = some hs) (he : e ∈ hs) :
    ∃ f ∈ fs, ∃ g ∈ gs, (e.1 = f.1 ∨ e.1 = g.1) ∧ merge f.2 g.2 = some e.2 := by
  induction fs generalizing hs with
  | nil =>
    cases h
    cases he
  | cons f fs ih =>
    obtain ⟨n, x⟩ := f
    have hlater {rest : List (String × (Bool × Shape))} (hrest : joinFields gs fs = some rest)
      (he : e ∈ rest) :
        ∃ f ∈ (n, x) :: fs, ∃ g ∈ gs, (e.1 = f.1 ∨ e.1 = g.1) ∧ merge f.2 g.2 = some e.2 := by
      obtain ⟨f, hf, hg⟩ := ih hrest he
      exact ⟨f, mem_cons_of_mem _ hf, hg⟩
    rcases joinFields_cons h with ⟨-, hrest⟩ | ⟨m, y, z, rest, hg, hz, hrest, rfl⟩
    · exact hlater hrest he
    · rcases mem_cons.1 he with rfl | he
      · refine ⟨(n, x), by simp, (m, y), mem_of_find?_eq_some hg, ?_, hz⟩
        cases Param.isOpt n
        · exact .inl rfl
        · exact .inr rfl
      · exact hlater hrest he

lemma keys_joinFields (h : joinFields gs fs = some hs) :
    (hs.map fun f => Param.key f.1).Sublist (fs.map fun f => Param.key f.1) := by
  induction fs generalizing hs with
  | nil =>
    cases h
    exact .slnil
  | cons f fs ih =>
    rcases joinFields_cons h with ⟨-, hrest⟩ | ⟨m, y, z, rest, hg, -, hrest, rfl⟩
    · exact (ih hrest).cons _
    · rw [map_cons, key_ite (key_of_lookup hg)]
      exact (ih hrest).cons_cons _

lemma lookup_key (hdistinct : (fs.map fun f => Param.key f.1).Nodup) (hf : f ∈ fs) :
    lookup fs (Param.key f.1) = some f := by
  obtain ⟨g, hg⟩ : ∃ g, lookup fs (Param.key f.1) = some g :=
    isSome_iff_exists.1 (find?_isSome.2 ⟨f, hf, by simp⟩)
  rw [hg, inj_on_of_nodup_map hdistinct (mem_of_find?_eq_some hg) hf (key_of_lookup hg)]

lemma joinFields_of_lookup (h : ∀ f ∈ fs, lookup gs (Param.key f.1) = some f) :
    joinFields gs fs = some fs := by
  induction fs with
  | nil => rfl
  | cons f fs ih =>
    obtain ⟨n, x⟩ := f
    have hself : lookup gs (Param.key n) = some (n, x) := h (n, x) (by simp)
    rw [joinFields, hself, ih fun e he => h e (by simp [he])]
    simp [Shape.merge_self]

/-! ## Joining two records -/

lemma get?_join (h : r.join q = some p) (k : String) :
    ((p.get? k).isSome ↔ (r.get? k).isSome ∧ (q.get? k).isSome) ∧
      p.get? k = (r.get? k).bind fun x => (q.get? k).bind fun y => merge x y := by
  obtain ⟨o, d⟩ := r
  obtain ⟨o', d'⟩ := q
  have hnone (o : Bool) : get? ⟨o, none⟩ k = none := rfl
  cases d with
  | none =>
    cases h
    simp [hnone]
  | some d =>
    cases d' with
    | none =>
      cases h
      simp [hnone]
    | some d' =>
      obtain ⟨hs, hjoin, rfl⟩ := map_eq_some_iff.1 h
      simpa [get?, fields] using lookup_joinFields hjoin k

lemma join_eq_none (hr : r.Proper) (h : r.join q = none) : ∃ k x y, r.get? k = some x ∧
    q.get? k = some y ∧ merge x y = none := by
  obtain ⟨o, d⟩ := r
  obtain ⟨o', d'⟩ := q
  cases d with
  | none => cases h
  | some d =>
    cases d' with
    | none => cases h
    | some d' =>
      obtain ⟨k, f, g, hf, hg, hmerge⟩ := joinFields_eq_none hr.distinct (map_eq_none_iff.1 h)
      exact ⟨k, f.2, g.2, map_eq_some_iff.2 ⟨f, hf, rfl⟩, map_eq_some_iff.2 ⟨g, hg, rfl⟩, hmerge⟩

lemma Proper.join (hr : r.Proper) (hq : q.Proper) (h : r.join q = some p) : p.Proper := by
  obtain ⟨o, d⟩ := r
  obtain ⟨o', d'⟩ := q
  have hnone (o : Bool) : Proper ⟨o, none⟩ := ⟨nodup_nil, nofun, nofun⟩
  cases d with
  | none =>
    cases h
    exact hnone _
  | some d =>
    cases d' with
    | none =>
      cases h
      exact hnone _
    | some d' =>
      obtain ⟨hs, hjoin, rfl⟩ := map_eq_some_iff.1 h
      refine ⟨(keys_joinFields hjoin).nodup hr.distinct, fun e he => ?_, fun e he => ?_⟩
      · obtain ⟨f, hf, g, hg, hname | hname, -⟩ := of_mem_joinFields hjoin he
        · rw [hname]
          exact hr.keys f hf
        · rw [hname]
          exact hq.keys g hg
      · obtain ⟨f, hf, g, hg, -, hmerge⟩ := of_mem_joinFields hjoin he
        exact Shape.depth_merge hmerge (hr.depth f hf) (hq.depth g hg)

lemma join_same {d : Option (String × List (String × (Bool × Shape)))} {o : Bool}
    (hr : Proper ⟨o, d⟩) (o' : Bool) : join ⟨o, d⟩ ⟨o', d⟩ = some ⟨o || o', d⟩ := by
  cases d with
  | none => rfl
  | some d =>
    have hfields : joinFields d.2 d.2 = some d.2 :=
      joinFields_of_lookup fun f hf => lookup_key hr.distinct hf
    simp [join, hfields]

lemma optional_join (h : r.join q = some p) : p.optional = (r.optional || q.optional) := by
  unfold join at h
  split at h
  · obtain ⟨hs, -, rfl⟩ := map_eq_some_iff.1 h
    rfl
  · cases h
    rfl

lemma join_optional (o o' : Bool) (d d' : Option (String × List (String × (Bool × Shape)))) :
    join ⟨o, d⟩ ⟨o', d'⟩ = (join ⟨false, d⟩ ⟨false, d'⟩).map fun p => ⟨o || o', p.detail⟩ := by
  cases d with
  | none => rfl
  | some d =>
    cases d' with
    | none => rfl
    | some d' => simp [join, Function.comp_def]

lemma join_self (hr : r.Proper) : r.join r = some r := by
  rw [join_same hr, Bool.or_self]

/-! ## Joining several records -/

def joinAll (r : Record) (rs : List Record) : Option Record := rs.foldlM join r

/-- The fields of a join are those that all records have. The type of each is the least type above
those that the records have. -/
lemma get?_joinAll (h : joinAll r rs = some p) (k : String) :
    ((p.get? k).isSome ↔ ∀ q ∈ r :: rs, (q.get? k).isSome) ∧
      ∀ x, p.get? k = some x → ∀ u, x ≤ u ↔ ∀ q ∈ r :: rs, ∀ y, q.get? k = some y → y ≤ u := by
  induction rs generalizing r with
  | nil =>
    cases h
    refine ⟨by simp, fun x hx u => ?_⟩
    simp only [mem_singleton, forall_eq, hx, some.injEq, forall_eq']
  | cons q rs ih =>
    obtain ⟨r', hr', h⟩ := bind_eq_some_iff.1 h
    obtain ⟨hsome, hleast⟩ := ih h
    obtain ⟨hboth, hget⟩ := get?_join hr' k
    simp only [forall_mem_cons] at hsome hleast ⊢
    refine ⟨by rw [hsome, hboth, and_assoc], fun x hx u => ?_⟩
    -- All have the field, so it is there to be joined.
    obtain ⟨z, hz⟩ := isSome_iff_exists.1 (hsome.1 (by simp [hx])).1
    rw [hz] at hget
    obtain ⟨a, ha, hget⟩ := bind_eq_some_iff.1 hget.symm
    obtain ⟨b, hb, hmerge⟩ := bind_eq_some_iff.1 hget
    rw [hleast x hx u, hz, ha, hb]
    simp only [some.injEq, forall_eq', Shape.merge_le_iff hmerge, and_assoc]

lemma joinAll_eq_none (hrs : ∀ q ∈ r :: rs, q.Proper) (h : joinAll r rs = none) :
    ∃ k, ¬ ∃ u : Shape, ∀ q ∈ r :: rs, ∀ y, q.get? k = some y → y.2 ≤ u := by
  induction rs generalizing r with
  | nil => cases h
  | cons q rs ih =>
    have hr : r.Proper := hrs r (by simp)
    have hq : q.Proper := hrs q (by simp)
    cases hr' : r.join q with
    | none =>
      obtain ⟨k, x, y, hx, hy, hmerge⟩ := join_eq_none hr hr'
      refine ⟨k, fun ⟨u, hu⟩ => ?_⟩
      obtain ⟨z, hz, -⟩ := (Shape.le_iff_of_merge x y (true, u)).1
        ⟨⟨Bool.le_true _, hu r (by simp) x hx⟩, ⟨Bool.le_true _, hu q (by simp) y hy⟩⟩
      simp [hmerge] at hz
    | some r' =>
      have hproper : ∀ p ∈ r' :: rs, p.Proper := by
        refine forall_mem_cons.2 ⟨hr.join hq hr', fun p hp => hrs p (by simp [hp])⟩
      have hrest : joinAll r' rs = none := by simpa [joinAll, hr'] using h
      obtain ⟨k, hk⟩ := ih hproper hrest
      refine ⟨k, fun ⟨u, hu⟩ =>
        hk ⟨u, forall_mem_cons.2 ⟨fun z hz => ?_, fun p hp => hu p (by simp [hp])⟩⟩⟩
      have hget := (get?_join hr' k).2
      rw [hz] at hget
      obtain ⟨a, ha, hget⟩ := bind_eq_some_iff.1 hget.symm
      obtain ⟨b, hb, hmerge⟩ := bind_eq_some_iff.1 hget
      have hle : z ≤ (true, u) := (Shape.merge_le_iff hmerge _).2
        ⟨⟨Bool.le_true _, hu r (by simp) a ha⟩, ⟨Bool.le_true _, hu q (by simp) b hb⟩⟩
      exact hle.2

/-- Conflicts are evident in any order: fields whose types have no common type are fields of all
records. -/
def Evident (rs : List Record) : Prop :=
  ∀ k, (∃ r ∈ rs, r.get? k = none) → ∃ u : Shape, ∀ r ∈ rs, ∀ y, r.get? k = some y → y.2 ≤ u

variable {qs : List Record}

lemma Evident.of_mem_iff (h : Evident rs) (hmem : ∀ p, p ∈ rs ↔ p ∈ qs) : Evident qs := by
  simpa only [Evident, hmem] using h

lemma joinAll_eq_none_of_perm (hrs : ∀ p ∈ r :: rs, p.Proper) (hevident : Evident (r :: rs))
    (hperm : (r :: rs).Perm (q :: qs)) (h : joinAll r rs = none) : joinAll q qs = none := by
  obtain ⟨k, hk⟩ := joinAll_eq_none hrs h
  have hall : ∀ p ∈ q :: qs, (p.get? k).isSome := by
    intro p hp
    by_contra hnone
    exact hk (hevident k ⟨p, hperm.mem_iff.2 hp, by simpa using hnone⟩)
  cases hp : joinAll q qs with
  | none => rfl
  | some p =>
    obtain ⟨hsome, hleast⟩ := get?_joinAll hp k
    obtain ⟨x, hx⟩ := isSome_iff_exists.1 (hsome.2 hall)
    have habove := (hleast x hx x).1 le_rfl
    exact absurd ⟨x.2, fun p hp y hy => (habove p (hperm.mem_iff.1 hp) y hy).2⟩ hk

lemma joinAll_perm (hrs : ∀ p ∈ r :: rs, p.Proper) (hevident : Evident (r :: rs))
    (hperm : (r :: rs).Perm (q :: qs)) : (joinAll r rs = none ∧ joinAll q qs = none) ∨
      ∃ p p', joinAll r rs = some p ∧ joinAll q qs = some p' ∧ ∀ k, p.get? k = p'.get? k := by
  have hqs : ∀ p ∈ q :: qs, p.Proper := fun p hp => hrs p (hperm.mem_iff.2 hp)
  have hevident' : Evident (q :: qs) := hevident.of_mem_iff fun p => hperm.mem_iff
  cases hp : joinAll r rs with
  | none => exact .inl ⟨rfl, joinAll_eq_none_of_perm hrs hevident hperm hp⟩
  | some p =>
    cases hp' : joinAll q qs with
    | none => simp [joinAll_eq_none_of_perm hqs hevident' hperm.symm hp'] at hp
    | some p' =>
      refine .inr ⟨p, p', rfl, rfl, fun k => ?_⟩
      obtain ⟨hsome, hleast⟩ := get?_joinAll hp k
      obtain ⟨hsome', hleast'⟩ := get?_joinAll hp' k
      simp only [hperm.mem_iff] at hsome hleast
      cases hx : p.get? k with
      | none =>
        cases hx' : p'.get? k with
        | none => rfl
        | some x' => simpa [hx] using hsome.2 (hsome'.1 (by simp [hx']))
      | some x =>
        obtain ⟨x', hx'⟩ := isSome_iff_exists.1 (hsome'.2 (hsome.1 (by simp [hx])))
        rw [hx', le_antisymm ((hleast x hx x').2 ((hleast' x' hx' x').1 le_rfl))
          ((hleast' x' hx' x).2 ((hleast x hx x).1 le_rfl))]

end Record

end Resolvent
