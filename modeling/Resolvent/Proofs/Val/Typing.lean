import Resolvent.Proofs.Subst.Alternatives
import Resolvent.Proofs.Ty.Compatible
import Resolvent.Proofs.Val.Equality
import Mathlib

/-!
# The types of literal data

A container has the common type of its items as its element type, and `any` if there is none.
-/

namespace Resolvent

open Solve List Option

/-! ## Shapes of the types of data -/

def Basic.isData (b : Basic) : Bool := b ∈ [.bool, .int, .real, .num, .str, .typ]

lemma Basic.isData_join : ∀ b c u : Basic, b.isData → c.isData → b.join c = some u → u.isData := by
  decide

lemma Basic.fits_of_le : ∀ b c : Basic, b ≤ c → b = c ∨ b ≠ .void ∧ c ≠ .void ∧ b.fits c := by
  decide

def Access.isData (k : Access) : Bool := k ∈ [.list, .dict]

lemma Access.eq_of_join : ∀ k l u : Access, k.isData → l.isData → k.join l = some u → k = u ∧
    l = u := by decide

namespace Shape

variable {a b c : Shape}

/-- The shape of the type of data: containers down to a primitive type, or as far as it is known. -/
def isData : Shape → Bool
  | any => true
  | basic b d => b.isData && d.isNone
  | bare k => k.isData
  | cont k _ e => k.isData && e.isData

structure Joinable (P : Shape → Prop) : Prop where
  any : P .any
  join : ∀ {a b c : Shape}, P a → P b → a.join b = some c → P c

lemma joinable_isData : Joinable fun a => a.isData where
  any := rfl
  join {a b c} ha hb h := by
    fun_induction join a b generalizing c with
    | case4 | case5 | case6 | case7 =>
      obtain ⟨u, hu, rfl⟩ := map_eq_some_iff.1 h
      grind [isData, Basic.isData_join, Access.eq_of_join]
    | case8 k o e l p f ih =>
      obtain ⟨u, hu, hc⟩ := bind_eq_some_iff.1 h
      obtain ⟨d, hd, rfl⟩ := map_eq_some_iff.1 hc
      grind [isData, Access.eq_of_join]
    | case1 | case2 | case3 | case9 => grind

lemma plain_kind (k : Access) : Ty.plain k.kind = typed (false, .bare k) := by cases k <;> rfl

/-- The types of shapes with the property. -/
abbrev Types (P : Shape → Prop) (t : Ty) : Prop := ∃ x : Bool × Shape, P x.2 ∧ t = typed x

lemma exists_map_typed {P : Shape → Prop} {ts : List Ty} (h : ∀ t ∈ ts, Types P t) :
    ∃ l : List (Bool × Shape), ts = l.map typed ∧ ∀ x ∈ l, P x.2 := by
  induction ts with
  | nil => exact ⟨[], rfl, by simp⟩
  | cons t ts ih =>
    obtain ⟨x, hx, rfl⟩ := h t (by simp)
    obtain ⟨l, rfl, hl⟩ := ih fun u hu => h u (by simp [hu])
    exact ⟨x :: l, rfl, forall_mem_cons.2 ⟨hx, hl⟩⟩

end Shape

open Shape (typed)

/-! ## The common type -/

namespace Subst

open Ty

variable {s s' : Subst} {t : Ty} {P : Shape → Prop} {x : Bool × Shape} {l : List (Bool × Shape)}

lemma Sound.le_of_foldCandidates (hs : s.Sound) (hP : Shape.Joinable P) {optional : Bool}
    (hx : P x.2) (hl : ∀ y ∈ l, P y.2)
    (h : (foldCandidates unify choose optional (l.map typed) (some (typed x))).exec s =
    (.ok t, s')) :
    ∃ z : Bool × Shape, P z.2 ∧ t = typed z ∧ (z.2 = .any ∨ ∀ y ∈ x :: l, y.2 ≤ z.2) := by
  induction l generalizing x with
  | nil =>
    cases h
    exact ⟨(x.1 || optional, x.2), hx, typed_optIf x optional, .inr (by simp)⟩
  | cons y l ih =>
    have hany : ∃ z : Bool × Shape, P z.2 ∧ Ty.any.optIf optional = typed z ∧
      (z.2 = .any ∨ ∀ w ∈ x :: y :: l, w.2 ≤ z.2) :=
      ⟨(optional, .any), hP.any, any_optIf optional, .inl rfl⟩
    rw [map_cons, foldCandidates, exec_bind, typed, hs.exec_choose_ty] at h
    dsimp only at h
    obtain ⟨r, hr, hjoined⟩ :=
      hs.joins_unify (le_max_left x.2.depth y.2.depth) (le_max_right _ _) x.1 y.1
    rw [exec_bind, exec_attempt, typed, hr] at h
    obtain hjoined | ⟨-, e, rfl⟩ := hjoined
    · cases hjoin : x.2.join y.2 with
      | none =>
        rw [hjoin] at hjoined
        obtain ⟨_, _, rfl⟩ := hjoined
        cases h
        exact hany
      | some c =>
        rw [hjoin] at hjoined
        subst hjoined
        obtain ⟨hy, hl⟩ := forall_mem_cons.1 hl
        obtain ⟨z, hz, rfl, hle⟩ := ih (x := (x.1 || y.1, c)) (hP.join hx hy hjoin) hl h
        refine ⟨z, hz, rfl, hle.imp_right fun hle => ?_⟩
        obtain ⟨hcz, hl⟩ := forall_mem_cons.1 hle
        obtain ⟨hxz, hyz⟩ := (Shape.le_iff_of_join x.2 y.2 z.2).2 ⟨c, hjoin, hcz⟩
        exact forall_mem_cons.2 ⟨hxz, forall_mem_cons.2 ⟨hyz, hl⟩⟩
    · cases e <;> first | (cases h; exact hany) | cases h

lemma Sound.le_of_choose_alt {ts : List Ty} (hs : s.Sound) (hP : Shape.Joinable P)
    (hl : ∀ x ∈ l, P x.2) (hne : l ≠ [])
    (hts : flat ts = l.map typed) (h : (choose (.alt ts)).exec s = (.ok t, s')) :
    ∃ z : Bool × Shape, P z.2 ∧ t = typed z ∧ (z.2 = .any ∨ ∀ x ∈ l, x.2 ≤ z.2) := by
  rw [alt_eq, hts] at h
  rcases l with _ | ⟨x, _ | ⟨y, l⟩⟩
  · exact absurd rfl hne
  · have hchoose : (Except.ok (typed x), s) = (.ok t, s') :=
      (hs.exec_choose_ty x.2 x.1).symm.trans h
    simp only [Prod.mk.injEq, Except.ok.injEq] at hchoose
    exact ⟨x, hl x (by simp), hchoose.1.symm, .inr (by simp)⟩
  · have hground : ∀ t ∈ (x :: y :: l).map typed, t.Ground :=
      List.forall_mem_map.2 fun z _ => Shape.ground_typed z
    have hexec := hs.exec_choose_alternative (p := false) hground
    rw [map_cons, foldCandidates, exec_bind, typed, hs.exec_choose_ty] at hexec
    exact hs.le_of_foldCandidates hP (hl x (by simp)) (fun z hz => hl z (by simp [hz]))
      (hexec.symm.trans h)

end Subst

namespace Val

variable {v : Val} {t : Ty} {ts : List Ty} {leaf cont motive : Val → Prop} {k : Access}

lemma commonType_le {P : Shape → Prop} (hP : Shape.Joinable P) (hts : ∀ u ∈ ts, Shape.Types P u)
    (h : commonType ts = some t) : ∃ z : Bool × Shape, P z.2 ∧ t = typed z ∧
      (z.2 = .any ∨ ∀ x : Bool × Shape, typed x ∈ ts → x.2 ≤ z.2) := by
  have hcandidates : ts.flatMap Ty.candidates = ts := by
    refine (flatMap_congr fun u hu => ?_).trans
      (flatMap_pure_eq_map id ts |>.trans (List.map_id ts))
    obtain ⟨x, -, rfl⟩ := hts u hu
    simp [Ty.candidates]
  have hself : ∀ u ∈ ts.flatMap Ty.candidates, u.selfFree := by
    intro u hu
    rw [hcandidates] at hu
    obtain ⟨x, -, rfl⟩ := hts u hu
    exact (Shape.ground_typed x).selfFree
  have hflat := (Ty.flat_spec hself).1
  rw [hcandidates] at hflat
  -- The different types, as shapes with flags.
  obtain ⟨l, hl, hlP⟩ := Shape.exists_map_typed fun u hu => hts u ((hflat u).1 hu)
  have hmem {x : Bool × Shape} (hx : typed x ∈ ts) : x ∈ l := by
    rw [← hflat, hl] at hx
    obtain ⟨y, hy, heq⟩ := List.mem_map.1 hx
    rwa [← Shape.typed_injective heq]
  unfold commonType at h
  split at h
  · cases h
  · next hne =>
    have hnil : l ≠ [] := by
      rintro rfl
      refine hne (List.isEmpty_iff.2 (eq_nil_iff_forall_not_mem.2 fun u hu => ?_))
      simpa [hl] using (hflat u).2 hu
    rcases hexec : (Subst.choose (.alt ts)).exec {} with ⟨_ | u, s'⟩ <;> rw [hexec] at h <;> cases h
    obtain ⟨z, hz, ht, hle⟩ := Subst.Sound.empty.le_of_choose_alt hP hlP hnil hl hexec
    exact ⟨z, hz, ht, hle.imp_right fun hle x hx => hle x (hmem hx)⟩

/-! ## Literal data -/

/-- A truth value, an integer or a text. -/
def Scalar (v : Val) : Prop := (∃ b, v = bool b) ∨ (∃ n, v = int n) ∨ ∃ s, v = str s

def items : Val → List Val
  | list items => items
  | dict entries => entries.map (·.2)
  | _ => []

def access? : Val → Option Access
  | list _ => some .list
  | dict _ => some .dict
  | _ => none

/-- The common type of the items of a container. -/
def elemType? (v : Val) : Option Ty := commonType (v.items.map typeOf)

/-- The container is empty, or its items have a common type. -/
def Uniform (v : Val) : Prop := v.items = [] ∨ ∃ t ∈ v.elemType?, t.isAny = false

/-- If the items of the container have a common type, then those with a mixed container inside have
this type. -/
def Coherent (leaf : Val → Prop) (v : Val) : Prop :=
  ∀ t ∈ v.elemType?, t.isAny = false → ∀ x ∈ v.items, x.typeOf = t ∨ x.Built leaf Uniform

/-- Items with a mixed container inside have the common type, if there is one. -/
abbrev Consistent : Val → Prop := Coherent Scalar

/-- The value fits the type: anything fits `any`, a list or dict fits a type with an element type by
its items, and otherwise the types are compared. -/
inductive Fits : Val → Ty → Prop
  | any {v : Val} {t : Ty} : t.isAny → Fits v t
  | list {items : List Val} {t e : Ty} : t.kind.bits = Kind.list.bits → t.elem? = some e →
      (∀ v ∈ items, Fits v e) → Fits (.list items) t
  | dict {entries : List (String × Val)} {t e : Ty} : t.kind.bits = Kind.dict.bits →
      t.elem? = some e → (∀ p ∈ entries, Fits p.2 e) → Fits (.dict entries) t
  | other {v : Val} {t : Ty} : t.isAny = false →
    (t.elem? = none ∨ t.kind.bits ≠ Kind.list.bits ∧ t.kind.bits ≠ Kind.dict.bits) →
    (Ty.fit v.typeOf t).isCompatible → Fits v t

lemma typesOf_eq_map (vs : List Val) : typesOf vs = vs.map typeOf := by
  induction vs with
  | nil => rfl
  | cons v vs ih => rw [typesOf, ih, map_cons]

lemma entryTypes_eq_map (entries : List (String × Val)) :
    entryTypes entries = (entries.map (·.2)).map typeOf := by
  induction entries with
  | nil => rfl
  | cons p entries ih => rw [entryTypes, ih, map_cons, map_cons]

lemma typeOf_cont (h : v.access? = some k) : v.typeOf = match v.elemType? with
      | some e => .around k.kind e
      | none => .plain k.kind := by
  cases v <;> cases h <;> rw [typeOf, elemType?, items]
  · rw [typesOf_eq_map]
    cases commonType _ <;> rfl
  · rw [entryTypes_eq_map]
    cases commonType _ <;> rfl

lemma isData_of_access? (h : v.access? = some k) : k.isData := by cases v <;> cases h <;> decide

/-- Lists and dicts at once. -/
@[elab_as_elim]
lemma Built.induct {leaf : Val → Prop} (hleaf : ∀ v, leaf v → motive v)
    (hcont : ∀ v k, v.access? = some k → cont v → (∀ x ∈ v.items, x.Built leaf cont) →
    (∀ x ∈ v.items, motive x) → motive v) (h : v.Built leaf cont) : motive v := by
  induction h with
  | leaf hv => exact hleaf _ hv
  | list hc hitems ih => exact hcont _ _ rfl hc hitems ih
  | dict hc hitems ih =>
    exact hcont _ _ rfl hc (List.forall_mem_map.2 hitems) (List.forall_mem_map.2 ih)

def HasType (v : Val) (b : Basic) : Prop := b.isData ∧ v.typeOf = typed (false, .basic b none)

lemma HasType.unique {b c : Basic} (hb : v.HasType b) (hc : v.HasType c) : b = c := by
  have htyped := Shape.typed_injective (hb.2.symm.trans hc.2)
  simpa using htyped

def basic? : Val → Option Basic
  | bool _ => some .bool
  | int _ => some .int
  | real _ => some .real
  | str _ => some .str
  | typ _ => some .typ
  | _ => none

lemma hasType_of_basic? {b : Basic} (h : v.basic? = some b) : v.HasType b := by
  cases v <;> cases h <;> exact ⟨rfl, by rw [typeOf]; rfl⟩

lemma types_of_items {P Q : Shape → Prop} (hQ : Shape.Joinable Q) (hv : v.access? = some k)
    (hitems : ∀ x ∈ v.items, Shape.Types Q x.typeOf) (hbare : P (.bare k))
    (hcont : ∀ o e, Q e → v.elemType? = some (e.ty o) → P (.cont k o e)) :
    Shape.Types P v.typeOf := by
  rw [typeOf_cont hv]
  cases helem : v.elemType? with
  | none => exact ⟨(false, .bare k), hbare, Shape.plain_kind k⟩
  | some t =>
    obtain ⟨z, hz, rfl, -⟩ := commonType_le hQ (List.forall_mem_map.2 hitems) helem
    exact ⟨(false, .cont k z.1 z.2), hcont z.1 z.2 hz helem, rfl⟩

lemma Built.exists_shape (hleaf : ∀ v, leaf v → v = null ∨ ∃ b, v.HasType b)
    (h : v.Built leaf cont) : Shape.Types (·.isData) v.typeOf := by
  refine induct ?_ ?_ h
  · intro v hv
    obtain rfl | ⟨b, hb, htype⟩ := hleaf v hv
    · exact ⟨(true, .any), rfl, rfl⟩
    · exact ⟨_, by simpa [Shape.isData] using hb, htype⟩
  · intro v k hv _ _ ih
    have hk := isData_of_access? hv
    exact types_of_items Shape.joinable_isData hv ih hk fun o e he _ => by
      simp [Shape.isData, hk, he]

/-- The data stands below the shape: a leaf below a primitive type, and what is in a container below
its element. -/
def Inside (leaf : Val → Prop) : Shape → Val → Prop
  | .any, _ => True
  | .basic c d, v => d = none ∧ leaf v ∧ ∃ b, v.HasType b ∧ b ≤ c
  | .bare k, v => v.access? = some k ∧ v.elemType? = none
  | .cont k _ e, v => v.access? = some k ∧ ∀ x ∈ v.items, Inside leaf e x

lemma Built.coherent (h : v.Built leaf Uniform) : v.Built leaf (Coherent leaf) := by
  induction h with
  | leaf hv => exact .leaf hv
  | list _ hitems ih => exact .list (fun t _ _ x hx => .inr (hitems x hx)) ih
  | dict _ hitems ih =>
    exact .dict (fun t _ _ => List.forall_mem_map.2 fun p hp => .inr (hitems p hp)) ih

section

variable (hleaf : ∀ v, leaf v → ∃ b, v.HasType b)
include hleaf

lemma exists_elem (hitems : ∀ x ∈ v.items, x.Built leaf cont) (ht : v.elemType? = some t) :
    ∃ z : Bool × Shape, z.2.isData ∧ t = typed z ∧
    (t.isAny = false → ∀ x ∈ v.items, ∃ y : Bool × Shape, x.typeOf = typed y ∧ y.2 ≤ z.2) := by
  have hshapes (x : Val) (hx : x ∈ v.items) :=
    (hitems x hx).exists_shape fun v hv => .inr (hleaf v hv)
  obtain ⟨z, hz, rfl, hle⟩ := commonType_le Shape.joinable_isData (List.forall_mem_map.2 hshapes) ht
  refine ⟨z, hz, rfl, fun hany x hx => ?_⟩
  obtain ⟨y, -, hy⟩ := hshapes x hx
  refine ⟨y, hy, hle.resolve_left (fun hz => ?_) y (hy ▸ List.mem_map_of_mem hx)⟩
  rw [typed, hz] at hany
  cases hany

lemma Built.inside_of_le (h : v.Built leaf Uniform) :
    ∀ (x : Bool × Shape) (e : Shape), v.typeOf = typed x → e.isData →
    x.2 ≤ e → Inside leaf e v := by
  refine induct (fun v hv x e htype he hle => ?_) (fun v k hv huniform hitems ih x e htype he hle =>
    ?_) h
  · obtain ⟨b, hb⟩ := hleaf v hv
    obtain rfl := Shape.typed_injective (hb.2.symm.trans htype)
    cases e with
    | basic c d =>
      have hd : d = none := by simp_all [Shape.isData]
      exact ⟨hd, hv, b, hb, hle.elim (fun h => h.1 ▸ le_rfl) (·.2)⟩
    | any | bare | cont => exact hle.elim
  · have hk := isData_of_access? hv
    rw [typeOf_cont hv] at htype
    obtain hnil | ⟨t, ht, hany⟩ := huniform
    · have helem : v.elemType? = none := by rw [elemType?, hnil]; rfl
      rw [helem] at htype
      obtain rfl := Shape.typed_injective ((Shape.plain_kind k).symm.trans htype)
      cases e with
      | bare l =>
        obtain ⟨rfl, -⟩ := Access.eq_of_join k l l hk he hle
        exact ⟨hv, helem⟩
      | cont l p f =>
        obtain ⟨rfl, -⟩ := Access.eq_of_join k l l hk (by simp_all [Shape.isData]) hle
        exact ⟨hv, by simp [hnil]⟩
      | any | basic => exact hle.elim
    · obtain ⟨z, hz, rfl, hbelow⟩ := exists_elem hleaf hitems ht
      rw [ht] at htype
      obtain rfl := Shape.typed_injective (show typed (false, .cont k z.1 z.2) = typed x from htype)
      cases e with
      | cont l p f =>
        obtain ⟨hkl, -, hzf⟩ := hle
        rw [Shape.isData, Bool.and_eq_true] at he
        obtain ⟨rfl, -⟩ := Access.eq_of_join k l l hk he.1 hkl
        refine ⟨hv, fun x hx => ?_⟩
        obtain ⟨y, hy, hyz⟩ := hbelow hany x hx
        exact ih x hx y f hy he.2 (hyz.trans hzf)
      | any | basic | bare => exact hle.elim

/-- Data is inside the shape of its type if the items of each container that have another type than
its element type have no mixed container inside. -/
lemma Built.inside_typeOf (h : v.Built leaf (Coherent leaf)) :
    ∃ x : Bool × Shape, v.typeOf = typed x ∧ Inside leaf x.2 v := by
  refine induct (fun v hv => ?_) (fun v k hv hcoherent hitems ih => ?_) h
  · obtain ⟨b, hb⟩ := hleaf v hv
    exact ⟨_, hb.2, rfl, hv, b, hb, le_rfl⟩
  · rw [typeOf_cont hv]
    cases helem : v.elemType? with
    | none => exact ⟨(false, .bare k), Shape.plain_kind k, hv, helem⟩
    | some t =>
      obtain ⟨z, hz, rfl, hbelow⟩ := exists_elem hleaf hitems helem
      refine ⟨(false, .cont k z.1 z.2), rfl, hv, fun x hx => ?_⟩
      by_cases hz' : z.2 = .any
      · rw [hz']
        trivial
      · have hany := Shape.isAny_ty_of_ne hz' z.1
        obtain heq | huniform := hcoherent _ helem hany x hx
        · obtain ⟨y, hy, hinside⟩ := ih x hx
          rwa [Shape.typed_injective (heq.symm.trans hy)]
        · obtain ⟨y, hy, hyz⟩ := hbelow hany x hx
          exact huniform.inside_of_le hleaf y z.2 hy hz hyz

end

/-! ## Literal data fits its type -/

lemma Scalar.hasType (h : v.Scalar) : ∃ b, v.HasType b := by
  obtain ⟨b, rfl⟩ | ⟨n, rfl⟩ | ⟨s, rfl⟩ := h <;> exact ⟨_, hasType_of_basic? rfl⟩

lemma Inside.fits {e : Shape} {o : Bool} (h : Inside leaf e v) : v.Fits (e.ty o) := by
  induction e generalizing v o with
  | any => exact .any (Shape.isAny_ty_any o)
  | basic c d =>
    obtain ⟨rfl, -, b, hb, hbc⟩ := h
    have hfits : (Shape.basic b none).Fits (.basic c none) :=
      (Basic.fits_of_le b c hbc).imp_left (⟨·, rfl⟩)
    refine .other (Shape.isAny_ty_of_ne (by simp) o) (.inl (Shape.elem?_ty _ o)) ?_
    rw [hb.2]
    exact (Shape.isCompatible_fit _ _ _ _).2 hfits
  | bare k =>
    refine .other (Shape.isAny_ty_of_ne (by simp) o) (.inl (Shape.elem?_ty _ o)) ?_
    rw [typeOf_cont h.1, h.2, Shape.plain_kind]
    exact (Shape.isCompatible_fit _ _ _ _).2 k.fits_self
  | cont k p e ih =>
    obtain ⟨hv, hitems⟩ := h
    cases v <;> cases hv
    · exact .list (Shape.bits_ty _ o) (Shape.elem?_ty _ o) fun x hx => ih (hitems x hx)
    · exact .dict (Shape.bits_ty _ o) (Shape.elem?_ty _ o) fun x hx =>
        ih (hitems x.2 (List.mem_map_of_mem hx))

/-- Literal data fits its type, down to the innermost items, if the items of each container that
have another type than its element type have no mixed container inside. -/
theorem fits_typeOf (v : Val) (h : v.Built Scalar Consistent) : v.Fits v.typeOf := by
  obtain ⟨x, htype, hinside⟩ := Built.inside_typeOf (fun v hv => hv.hasType) h
  rw [htype]
  exact hinside.fits

/-- Two mixed lists and an empty one: the mixed ones have the element type themselves. -/
theorem fits_typeOf_mixed : let v := list [list [int 1, str "a"], list [str "b", int 2], list []]
    v.Built Scalar Consistent ∧ v.Fits v.typeOf := by
  intro v
  have hmixed {x y : Val} (hx : x.Scalar) (hy : y.Scalar)
    (h : (list [x, y]).elemType? = some .any) : (list [x, y]).Built Scalar Consistent := by
    refine .list (fun t ht hany => ?_) (by simpa using ⟨.leaf hx, .leaf hy⟩)
    cases h.symm.trans ht
    cases hany
  have hfirst : (list [int 1, str "a"]).Built Scalar Consistent :=
    hmixed (.inr (.inl ⟨_, rfl⟩)) (.inr (.inr ⟨_, rfl⟩)) (by cbv)
  have hsecond : (list [str "b", int 2]).Built Scalar Consistent :=
    hmixed (.inr (.inr ⟨_, rfl⟩)) (.inr (.inl ⟨_, rfl⟩)) (by cbv)
  have hbuilt : v.Built Scalar Consistent := by
    have hthird : (list []).Built Scalar Consistent := .list (fun t ht => by cases ht) (by simp)
    refine .list (fun t ht _ => ?_) (by simpa using ⟨hfirst, hsecond, hthird⟩)
    have helem : v.elemType? = some (.list .any) := by cbv
    cases helem.symm.trans ht
    have huniform : (list []).Built Scalar Uniform := .list (.inl rfl) (by simp)
    have htypes : (list [int 1, str "a"]).typeOf = .list .any ∧ (list [str "b", int 2]).typeOf =
      .list .any := ⟨by cbv, by cbv⟩
    simp [items, htypes, huniform]
  exact ⟨hbuilt, fits_typeOf v hbuilt⟩

lemma fits_of_mem_list {xs : List Val} {e : Ty} (h : (list xs).Fits (.list e)) (hx : v ∈ xs) :
    v.Fits e := by
  have helem : (Ty.list e).elem? = some e := if_pos Access.list.isElemCont_kind
  cases h with
  | any hany => cases hany
  | list _ he hitems =>
    cases helem.symm.trans he
    exact hitems v hx
  | other _ hnot =>
    obtain hnone | ⟨hne, -⟩ := hnot
    · cases helem.symm.trans hnone
    · exact absurd rfl hne

/-- Beside a list of integers a mixed list counts as one: its text does not fit. -/
theorem not_fits_mixed : let v := list [list [int 1, str "a"], list [int 1]]
    v.typeOf = .list (.list .int) ∧ ¬ v.Fits v.typeOf := by
  intro v
  have htype : v.typeOf = .list (.list .int) := by cbv
  refine ⟨htype, fun h => ?_⟩
  rw [htype] at h
  have hlist : (list [int 1, str "a"]).Fits (.list .int) := fits_of_mem_list h (by simp)
  have htext : (str "a").Fits .int := fits_of_mem_list hlist (by simp)
  cases htext with
  | any hany => cases hany
  | other _ _ hfit => exact absurd hfit (by decide)

end Val

end Resolvent
