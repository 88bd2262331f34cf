import Resolvent.Proofs.Layout.Carry
import Mathlib.Data.List.TakeDrop
import Mathlib.Data.List.TakeWhile

/-!
# Groups hold the arguments

Grouping walks along the arguments and each parameter takes a piece from the front: a run of
elements of its classes, and behind declarations a naked marker, which is dropped.
-/

namespace Resolvent.Layout

open List

variable {s s₁ s₂ s' s'' : Store} {name : String} {ids rest run group args : List Nat} {o id : Nat}

/-! ## Pieces of the arguments -/

/-- What a parameter draws from the arguments: a run, the naked marker behind it if one is dropped,
and the group that the run becomes. -/
structure Piece where
  run : List Nat
  marker : List Nat
  group : List Nat

/-- The element is the argument itself, or a new declaration in the place of an argument that is one
without an argument. -/
def StandsFor (s s' : Store) (id o : Nat) : Prop :=
  o = id ∨ declArgs s id = [] ∧ s.size ≤ o ∧
    ∃ arg, s'.get o = ⟨.decl (declName s id) [arg], s.span id⟩

/-- What the group of a role holds. -/
def Role.Holds (s : Store) (group : List Nat) : Role → Prop
  | .plain => ∀ id ∈ group, classOf s id = .ordinary
  | .tags => ∀ id ∈ group, classOf s id = .tag
  | .args => ∃ plain tags, group = plain ++ tags ∧ (∀ id ∈ plain, classOf s id = .ordinary) ∧
      ∀ id ∈ tags, classOf s id = .tag
  | .decls => ∀ id ∈ group, classOf s id = .decl
  | .unis => ∀ id ∈ group, classOf s id = .decl ∧ (declArgs s id).length = 1
  | .single => group.length ≤ 1 ∧ ∀ id ∈ group, classOf s id = .ordinary

/-- A piece that the parameter `name` draws from arguments in the store `s`, with its group in the
store `s'`. -/
structure Piece.Drawn (s s' : Store) (name : String) (p : Piece) : Prop where
  stands : Forall₂ (StandsFor s s') p.run p.group
  same : Role.of name ≠ .unis → p.group = p.run
  marker : p.marker = [] ∨ (Role.of name = .decls ∨ Role.of name = .unis) ∧ ∃ m, p.marker = [m] ∧
  classOf s m = .naked
  holds : (Role.of name).Holds s' p.group

lemma StandsFor.kept (h : StandsFor s s' id o) (hk : s'.Kept s'') : StandsFor s s'' id o := by
  refine h.imp_right fun ⟨hnone, hnew, arg, hget⟩ => ⟨hnone, hnew, arg, ?_⟩
  rw [hk.get o (Store.lt_size_of_content_ne (by simp [Store.content, hget])), hget]

lemma StandsFor.lt_size (h : StandsFor s s' id o) (hk : s.Kept s') (hid : id < s.size) :
    o < s'.size := by
  rcases h with rfl | ⟨-, -, arg, hget⟩
  · exact hid.trans_le hk.size_le
  · exact Store.lt_size_of_content_ne (by simp [Store.content, hget])

lemma forall₂_standsFor_self (s s' : Store) (run : List Nat) : Forall₂ (StandsFor s s') run run :=
  forall₂_same.2 fun _ _ => .inl rfl

lemma Carried.standsFor (h : Carried s s' run group) : Forall₂ (StandsFor s s') run group := by
  induction h with
  | nil => exact .nil
  | keep _ _ ih => exact .cons (.inl rfl) ih
  | copy hnone _ hnew hget _ ih => exact .cons (.inr ⟨hnone, hnew, _, hget⟩) ih

lemma Role.Holds.kept {role : Role} (h : role.Holds s group) (hgroup : ∀ id ∈ group, id < s.size)
    (hk : s.Kept s') : role.Holds s' group := by
  have hclass (id : Nat) (hid : id ∈ group) : classOf s' id = classOf s id :=
    classOf_kept hk (hgroup id hid)
  have hargs (id : Nat) (hid : id ∈ group) : declArgs s' id = declArgs s id :=
    congrArg Prod.snd (declParts_kept hk (hgroup id hid))
  cases role with
  | args =>
    obtain ⟨plain, tags, rfl, hplain, htags⟩ := h
    refine ⟨plain, tags, rfl, fun id hid => ?_, fun id hid => ?_⟩
    · rw [hclass id (by simp [hid]), hplain id hid]
    · rw [hclass id (by simp [hid]), htags id hid]
  | single => exact ⟨h.1, fun id hid => (hclass id hid).trans (h.2 id hid)⟩
  | unis => exact fun id hid => ⟨(hclass id hid).trans (h id hid).1, hargs id hid ▸ (h id hid).2⟩
  | _ => exact fun id hid => (hclass id hid).trans (h id hid)

lemma lt_size_of_standsFor (h : Forall₂ (StandsFor s s') run group) (hk : s.Kept s')
    (hrun : ∀ id ∈ run, id < s.size) : ∀ o ∈ group, o < s'.size := by
  induction h with
  | nil => simp
  | cons hstands _ ih =>
    refine forall_mem_cons.2 ⟨hstands.lt_size hk (hrun _ (by simp)),
      ih fun id hid => hrun id (by simp [hid])⟩

lemma Piece.Drawn.kept {p : Piece} (h : p.Drawn s s' name) (hk : s.Kept s')
    (hrun : ∀ id ∈ p.run, id < s.size) (hk' : s'.Kept s'') : p.Drawn s s'' name where
  stands := h.stands.imp fun _ _ hstands => hstands.kept hk'
  same := h.same
  marker := h.marker
  holds := Role.Holds.kept h.holds (lt_size_of_standsFor h.stands hk hrun) hk'

/-! ## What one parameter takes -/

lemma takeRun_append (s : Store) (c : Class) (ids : List Nat) :
    (takeRun s c ids).1 ++ (takeRun s c ids).2 = ids := by
  rw [takeRun, span_eq_takeWhile_dropWhile]
  exact takeWhile_append_dropWhile

lemma classOf_of_mem_takeRun {c : Class} (h : o ∈ (takeRun s c ids).1) : classOf s o = c := by
  rw [takeRun, span_eq_takeWhile_dropWhile] at h
  simpa using mem_takeWhile_imp h

lemma takeDecls_fst (s : Store) (ids : List Nat) :
    (takeDecls s ids).1 = (takeRun s .decl ids).1 := by
  fun_cases takeDecls s ids <;> simp_all

lemma exists_marker (s : Store) (ids : List Nat) :
    ∃ marker, ids = (takeDecls s ids).1 ++ marker ++ (takeDecls s ids).2 ∧
    (marker = [] ∨ ∃ m, marker = [m] ∧ classOf s m = .naked) := by
  have hsplit := takeRun_append s .decl ids
  fun_cases takeDecls s ids with
  | case1 run id rest hrun hnaked => exact ⟨[id], by simp_all, .inr ⟨id, rfl, hnaked⟩⟩
  | case2 run id rest hrun hclass => exact ⟨[], by simp_all, .inl rfl⟩
  | case3 run hrun => exact ⟨[], by simp_all, .inl rfl⟩

lemma Piece.Drawn.of_run (hholds : (Role.of name).Holds s' run) :
    Drawn s s' name ⟨run, [], run⟩ where
  stands := forall₂_standsFor_self s s' run
  same _ := rfl
  marker := .inl rfl
  holds := hholds

lemma Carried.holds (h : Carried s s' run group) (hk : s.Kept s')
    (hrun : ∀ id ∈ run, classOf s id = .decl) : Role.unis.Holds s' group := by
  induction h with
  | nil => exact fun _ hid => nomatch hid
  | @keep d arg _ _ hargs _ ih =>
    have hd : classOf s d = .decl := hrun d (by simp)
    have hlt : d < s.size := lt_size_of_classOf_decl hd
    refine forall_mem_cons.2 ⟨⟨by rw [classOf_kept hk hlt, hd], ?_⟩,
      ih fun id hid => hrun id (by simp [hid])⟩
    rw [declArgs, declParts_kept hk hlt, ← declArgs, hargs]
    rfl
  | @copy d o arg _ _ _ _ _ hget _ ih =>
    have hname : declName s d ≠ "" := by
      cases hc : s.content d <;> simp_all [classOf, declName, declParts, Class.of]
    refine forall_mem_cons.2 ⟨⟨?_, ?_⟩, ih fun id hid => hrun id (by simp [hid])⟩
    · simp [classOf, Store.content, hget, Class.of, hname]
    · simp [declArgs, declParts, Store.content, hget]

lemma exec_take (hk : s.Kept s₁) (hids : ∀ id ∈ ids, id < s.size)
    (h : (take name ids).exec s₁ = (.ok (group, rest), s₂)) :
    s₁.Kept s₂ ∧ ∃ p : Piece, p.group = group ∧ ids = p.run ++ p.marker ++ rest ∧
    p.Drawn s s₂ name := by
  -- All roles but one leave the store and the run as they are.
  have hrun {s₂ : Store} {run rest' : List Nat}
    (h : (Except.ok (run, rest'), s₁) = (Except.ok (ε := Failure) (group, rest), s₂))
      (hsplit : run ++ rest' = ids) (hholds : (Role.of name).Holds s₁ run) :
      s₁.Kept s₂ ∧ ∃ p : Piece, p.group = group ∧ ids = p.run ++ p.marker ++ rest ∧
      p.Drawn s s₂ name := by
    cases h
    exact ⟨.refl s₁, ⟨group, [], group⟩, rfl, by simpa using hsplit.symm, .of_run hholds⟩
  have hmarker {marker : List Nat} (hsub : marker ⊆ ids)
    (hmarker : marker = [] ∨ ∃ m, marker = [m] ∧ classOf s₁ m = .naked)
      (hrole : Role.of name = .decls ∨ Role.of name = .unis) :
      marker = [] ∨ (Role.of name = .decls ∨ Role.of name = .unis) ∧ ∃ m, marker = [m] ∧
      classOf s m = .naked := by
    refine hmarker.imp_right fun ⟨m, hm, hnaked⟩ => ⟨hrole, m, hm, ?_⟩
    rwa [← classOf_kept hk (hids m (hsub (by simp [hm])))]
  rw [take, Arrange.exec_get_bind] at h
  cases hrole : Role.of name with
  | plain =>
    simp only [hrole] at h hrun
    exact hrun h (takeRun_append s₁ .ordinary ids) fun _ => classOf_of_mem_takeRun
  | tags =>
    simp only [hrole] at h hrun
    exact hrun h (takeRun_append s₁ .tag ids) fun _ => classOf_of_mem_takeRun
  | args =>
    simp only [hrole] at h hrun
    refine hrun h ?_ ⟨_, _, rfl, fun _ => classOf_of_mem_takeRun, fun _ => classOf_of_mem_takeRun⟩
    rw [append_assoc, takeRun_append, takeRun_append]
  | decls =>
    simp only [hrole, Arrange.exec_pure, Prod.mk.injEq, Except.ok.injEq] at h
    obtain ⟨hgroup, rfl⟩ := h
    obtain ⟨marker, hsplit, hnaked⟩ := exists_marker s₁ ids
    rw [hgroup] at hsplit
    refine ⟨.refl s₁, ⟨_, marker, _⟩, rfl, hsplit, forall₂_standsFor_self _ _ _,
      fun _ => rfl, ?_, ?_⟩
    · exact hmarker (by rw [hsplit]; simp) hnaked (.inl hrole)
    · rw [hrole, show group = (takeRun s₁ .decl ids).1 by rw [← takeDecls_fst, hgroup]]
      exact fun _ => classOf_of_mem_takeRun
  | unis =>
    simp only [hrole] at h
    obtain ⟨outs, s₃, hcarry, hpure⟩ := Arrange.exec_bind_eq_ok.1 h
    cases hpure
    obtain ⟨marker, hsplit, hnaked⟩ := exists_marker s₁ ids
    have hlt : ∀ id ∈ (takeDecls s₁ ids).1, id < s.size :=
      fun id hid => hids id (by rw [hsplit]; simp [hid])
    obtain ⟨s₃, hk₃, ⟨outs, hexec, hcarried⟩ | ⟨d, hexec, -⟩⟩ :=
      carryForward_spec hk (forall_mem_nil _) hlt
    · obtain ⟨⟨⟩, rfl⟩ := Prod.mk.inj (hexec.symm.trans hcarry)
      refine ⟨hk₃, ⟨_, marker, group⟩, rfl, hsplit, hcarried.standsFor,
        fun hne => absurd hrole hne, ?_, ?_⟩
      · exact hmarker (by rw [hsplit]; simp) hnaked (.inr hrole)
      · rw [hrole]
        refine hcarried.holds (hk.trans hk₃) fun id hid => ?_
        rw [← classOf_kept hk (hlt id hid)]
        rw [takeDecls_fst] at hid
        exact classOf_of_mem_takeRun hid
    · cases (Prod.mk.inj (hexec.symm.trans hcarry)).1
  | single =>
    simp only [hrole] at h hrun
    cases ids with
    | nil => exact hrun h rfl (by simp [Role.Holds])
    | cons id ids =>
      dsimp only at h
      split at h
      · next hclass => exact hrun h rfl (by simp [Role.Holds, hclass])
      · split at h
        · exact hrun h rfl (by simp [Role.Holds])
        · cases (Prod.mk.inj h).1

/-! ## All parameters -/

lemma exec_arrange {params : List Param} {groups : List (List Nat)} (hk : s.Kept s₁)
    (hargs : ∀ id ∈ args, id < s.size) (h : (arrange params args).exec s₁ = (.ok groups, s')) :
    s₁.Kept s' ∧ ∃ pieces : List Piece, groups = pieces.map (·.group) ∧
    args = pieces.flatMap (fun p => p.run ++ p.marker) ∧
      Forall₂ (fun param p => p.Drawn s s' param.1 ∧
      (Param.isOpt param.1 = false → p.group ≠ [])) params pieces := by
  induction params generalizing args s₁ groups with
  | nil =>
    cases args with
    | nil =>
      cases h
      exact ⟨.refl _, [], rfl, rfl, .nil⟩
    | cons id args => cases (Prod.mk.inj h).1
  | cons param params ih =>
    obtain ⟨⟨group, rest⟩, s₂, htake, hnext⟩ := Arrange.exec_bind_eq_ok.1 h
    obtain ⟨hk₂, p, rfl, rfl, hdrawn⟩ := exec_take hk hargs htake
    dsimp only at hnext
    split at hnext
    · cases (Prod.mk.inj hnext).1
    · next hempty =>
      obtain ⟨groups, s₃, hrest, hpure⟩ := Arrange.exec_bind_eq_ok.1 hnext
      cases hpure
      obtain ⟨hk', pieces, rfl, rfl, hpieces⟩ :=
        ih (hk.trans hk₂) (fun id hid => hargs id (by simp [hid])) hrest
      refine ⟨hk₂.trans hk', p :: pieces, rfl, rfl, .cons ⟨?_, ?_⟩ hpieces⟩
      · exact hdrawn.kept (hk.trans hk₂) (fun id hid => hargs id (by simp [hid])) hk'
      · intro hrequired hnil
        exact hempty (by simp [hrequired, hnil])

/-- The groups are the arguments: there is one group for each parameter, its run and the marker
dropped behind it are a piece of the arguments, and the pieces in order are all of them. Only copies
with an argument stand in the place of others, each group holds what its parameter takes, and a
required parameter has something. Elements that were there stay as they are. -/
theorem arrange_exact {params : List Param} {groups : List (List Nat)}
    (hargs : ∀ id ∈ args, id < s.size) (h : (arrange params args).exec s = (.ok groups, s')) :
    s.Kept s' ∧ ∃ pieces : List Piece,
      groups = pieces.map (·.group) ∧ args = pieces.flatMap (fun p => p.run ++ p.marker) ∧
      List.Forall₂ (fun param p => p.Drawn s s' param.1 ∧
      (Param.isOpt param.1 = false → p.group ≠ [])) params pieces :=
  exec_arrange (.refl s) hargs h

/-- A store with a declaration without argument, one with it, a naked marker, two literals and a
tag. -/
def mixed : Store where
  elements := #[⟨.literal (.int 1), ⟨6, 7⟩⟩, ⟨.decl "x" [], ⟨0, 2⟩⟩, ⟨.decl "y" [0], ⟨3, 7⟩⟩,
  ⟨.decl "" [], ⟨8, 9⟩⟩,
    ⟨.literal (.int 2), ⟨10, 11⟩⟩, ⟨.literal (.int 3), ⟨12, 13⟩⟩, ⟨.tag "t" none, ⟨14, 16⟩⟩]

/-- One element for a named parameter, and before and behind it runs of declarations, ordinary
elements and tags. -/
theorem arrange_exact_mixed : let params : List Param :=
      [("unis", .any), ("first", .any), ("decls?", .any), ("tail", .list .any)]
    let args := [1, 2, 3, 4, 5, 6]
    (∀ id ∈ args, id < mixed.size) ∧ ∃ groups s', (arrange params args).exec mixed =
    (.ok groups, s') ∧ groups = [[7, 2], [4], [], [5, 6]] ∧ ∃ pieces : List Piece,
        groups = pieces.map (·.group) ∧ args = pieces.flatMap (fun p => p.run ++ p.marker) ∧
        List.Forall₂ (fun param p => p.Drawn mixed s' param.1 ∧
        (Param.isOpt param.1 = false → p.group ≠ [])) params pieces := by
  intro params args
  have hargs : ∀ id ∈ args, id < mixed.size := by decide
  have hrun : ((arrange params args).exec mixed).1.toOption = some [[7, 2], [4], [], [5, 6]] := by
    decide
  rcases hexec : (arrange params args).exec mixed with ⟨_ | groups, s'⟩
  · rw [hexec] at hrun
    cases hrun
  · rw [hexec] at hrun
    exact ⟨hargs, groups, s', rfl, Option.some.inj hrun, (arrange_exact hargs hexec).2⟩

end Resolvent.Layout
